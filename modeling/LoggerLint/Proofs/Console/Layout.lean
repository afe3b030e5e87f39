import LoggerLint.Proofs.Console.Exact
import LoggerLint.Proofs.Syntax.Spans

/-!
# Where the reported calls stand

In a well-formed tree a reported call starts with the name of the global, and goes on past it. So no two
of them start at one offset, and of two calls the later one stands inside the earlier one or behind it
(`Laid.nested_or_apart`). The prologue goes before all of them (`Laid.anchor_le`).
-/

namespace LoggerLint

open Utf8 (Boundary encode)

/-! ## The text of a node -/

namespace Node

variable {source : Bytes} {chars : List Char} {node : Node}

/-- Between two characters a node covers the encoding of its text. -/
theorem bytes_eq_encode_text (hsource : source = encode chars) (hstart : Boundary source node.start)
    (hstop : Boundary source node.stop) : node.bytes source = encode (node.text source).toList := by
  have hinner : ∃ inner, node.bytes source = encode inner := by
    by_cases htextless : node.label.textless = true
    · exact ⟨[], by simp [bytes, htextless]⟩
    · by_cases hle : node.start ≤ node.stop
      · subst hsource
        obtain ⟨inner, hinner⟩ := hstart.exists_slice hstop hle
        exact ⟨inner, by simp [bytes, htextless, hinner]⟩
      · refine ⟨[], ?_⟩
        have hempty : (source.take node.stop).drop node.start = [] :=
          List.drop_eq_nil_of_le (by rw [List.length_take]; omega)
        simp [bytes, htextless, hempty]
  obtain ⟨inner, hinner⟩ := hinner
  rw [text, hinner, Utf8.decodeLossy_encode, String.toList_ofList]

theorem text_of_bytes_eq_nil (h : node.bytes source = []) : node.text source = "" := by
  rw [text, h, ← Utf8.encode_nil, Utf8.decodeLossy_encode]

/-- A node with a text is not empty. -/
theorem start_lt_stop_of_text_ne (h : node.text source ≠ "") : node.start < node.stop := by
  refine Nat.lt_of_not_le fun hle => h (text_of_bytes_eq_nil ?_)
  rw [bytes]
  split
  · rfl
  · exact List.drop_eq_nil_of_le (by rw [List.length_take]; omega)

/-- A node with a text ends behind it, and the source goes on from its start with the text. -/
theorem drop_start_of_text (hsource : source = encode chars) (hstart : Boundary source node.start)
    (hstop : Boundary source node.stop) (h : node.text source ≠ "") :
    node.stop = node.start + (encode (node.text source).toList).length ∧
      source.drop node.start = encode (node.text source).toList ++ source.drop node.stop := by
  have hlt := start_lt_stop_of_text_ne h
  have hslice : (source.take node.stop).drop node.start = encode (node.text source).toList := by
    by_cases htextless : node.label.textless = true
    · exact absurd (text_of_bytes_eq_nil (by simp [bytes, htextless])) h
    · rw [← bytes_eq_encode_text hsource hstart hstop, bytes, if_neg htextless]
  have hlength : (source.take node.stop).length = node.stop := by
    rw [List.length_take, Nat.min_eq_left hstop.1]
  refine ⟨?_, ?_⟩
  · rw [← hslice, List.length_drop, hlength]
    omega
  · rw [← hslice, ← List.drop_append_of_le_length (by omega), List.take_append_drop]

theorem start_eq_of_sameAs {other : Node} (h : node.sameAs other = true) :
    node.start = other.start ∧ node.stop = other.stop := by
  simp only [sameAs, Bool.and_eq_true, beq_iff_eq] at h
  exact ⟨h.1.2, h.2⟩

/-- What is accessed stands behind the object. -/
theorem Spanned.object_stop_le {object property : Node} (hnode : node.Spanned source)
    (hkind : node.kind = "member_expression") (hobject : node.child? "object" = some object)
    (hproperty : node.child? "property" = some property) (htext : property.text source ≠ "") :
    object.start = node.start ∧ object.stop < node.stop := by
  have hobject' := mem_children_of_child? hobject
  have hproperty' := mem_children_of_child? hproperty
  have hne : object ≠ property := by
    rintro rfl
    have hfield := inField_of_child? hobject
    have hfield' := inField_of_child? hproperty
    simp only [inField, beq_iff_eq] at hfield hfield'
    rw [hfield] at hfield'
    exact absurd hfield' (by decide)
  have hstart := hnode.member hkind object hobject
  have hinside := hnode.inside property hproperty'
  have hlt := start_lt_stop_of_text_ne htext
  rcases Path.apart_of_mem_children hnode hobject' hproperty' hne with hbefore | hbehind
  · exact ⟨hstart, by omega⟩
  · omega

end Node

namespace Console

/-! ## One reported call -/

variable {source : Bytes} {chars : List Char} {root : Node}

/-- A call stands at its place: it starts with the name of the global, and the method comes after. -/
structure Laid (source : Bytes) (root : Node) (call : Call) (member : Node) (rest : List Node) :
    Prop where
  /-- the nodes from the use up to the root -/
  path : Node.Path root (call.reference.site.node :: member :: call.node :: rest)
  /-- they are the ones above the use -/
  above_eq : call.reference.site.above = member :: call.node :: rest
  /-- the call starts with the use -/
  start_eq : call.reference.site.node.start = call.node.start
  /-- the use ends behind the name -/
  name_stop : call.reference.site.node.stop = call.node.start + 7
  /-- the method comes after the name -/
  name_lt : call.node.start + 7 < member.stop
  /-- the name stands in the source -/
  source_eq : ∃ tail, source.drop call.node.start = 0x63 :: tail
  /-- the call starts between two characters -/
  boundary : Boundary source call.node.start

/-- The access and the call are the nodes next above the use. -/
theorem Calls.exists_above {use : Reference} {member call : Node} (h : Calls source use member call) :
    ∃ rest, use.site.above = member :: call :: rest := by
  have hparent := h.parent
  have hgrandparent := h.grandparent
  rw [Site.parent?] at hparent
  rw [Site.grandparent?] at hgrandparent
  rcases habove : use.site.above with _ | ⟨first, _ | ⟨second, rest⟩⟩
  · simp [habove] at hparent
  · simp [habove] at hgrandparent
  · simp only [habove, List.head?_cons, Option.some.injEq] at hparent
    simp only [habove, List.getElem?_cons_succ, List.getElem?_cons_zero, Option.some.injEq]
      at hgrandparent
    exact ⟨rest, by rw [hparent, hgrandparent]⟩

/-- **A reported call stands at its place.** -/
theorem exists_laid (hsource : source = encode chars) (hroot : root.WellFormed source) {call : Call}
    (hin : call.reference.site.In root) (htext : call.reference.site.node.text source = globalName)
    {member : Node} (hcalls : Calls source call.reference member call.node) :
    ∃ rest, Laid source root call member rest := by
  obtain ⟨rest, habove⟩ := hcalls.exists_above
  have hpath : Node.Path root (call.reference.site.node :: member :: call.node :: rest) := by
    rw [← habove]
    exact hin
  -- the call starts with the access, and the access with its object, which is the use
  have hmember := (hpath.tail (by simp)).spanned hroot
  obtain ⟨object, hobject, hsame⟩ := hcalls.object
  obtain ⟨property, hproperty, hmethod⟩ := hcalls.property
  obtain ⟨function, hfunction, hsame'⟩ := hcalls.function
  obtain ⟨hstart, hstop⟩ := Node.start_eq_of_sameAs hsame
  obtain ⟨hstart', -⟩ := Node.start_eq_of_sameAs hsame'
  have hnonempty : property.text source ≠ "" := by
    rintro hempty
    simp [hempty] at hmethod
  obtain ⟨hobjectStart, hobjectStop⟩ :=
    hmember.object_stop_le hcalls.member_kind hobject hproperty hnonempty
  have hcallStart := (((hpath.tail (by simp)).tail (by simp)).spanned hroot).call hcalls.call_kind
    function hfunction
  obtain ⟨hbefore, hbehind⟩ := hmember.boundary _ hpath.mem_children
  obtain ⟨hlength, hdrop⟩ := Node.drop_start_of_text hsource hbefore hbehind (by rw [htext]; decide)
  have hstarts : call.reference.site.node.start = call.node.start := by omega
  rw [htext] at hlength hdrop
  have hseven : (encode globalName.toList).length = 7 := by decide
  exact ⟨rest, {
    path := hpath
    above_eq := habove
    start_eq := hstarts
    name_stop := by omega
    name_lt := by omega
    source_eq := ⟨_, hstarts ▸ hdrop⟩
    boundary := hstarts ▸ hbefore }⟩

namespace Laid

variable {a b : Call} {member member' : Node} {rest rest' : List Node}

theorem start_lt_stop (hroot : root.WellFormed source) (h : Laid source root a member rest) :
    a.node.start + 7 < a.node.stop := by
  have hinside := (h.path.tail (by simp)).inside_parent hroot
  have hlt := h.name_lt
  omega

theorem stop_le (hroot : root.WellFormed source) (h : Laid source root a member rest) :
    a.node.stop ≤ source.length :=
  (((h.path.tail (by simp)).tail (by simp)).spanned hroot).stop_le

/-! ## Two reported calls -/

/-- A use does not stand below another one that starts at the same offset: the access around it would
not fit into the name. -/
theorem not_suffix_above (hroot : root.WellFormed source) (ha : Laid source root a member rest)
    (hb : Laid source root b member' rest') (hstart : a.node.start = b.node.start) :
    ¬ (a.reference.site.node :: member :: a.node :: rest) <:+ (member' :: b.node :: rest') := by
  intro hbelow
  have hinside := (hb.path.tail (by simp)).inside_of_suffix hroot hbelow
  have hstop := ha.name_stop
  have hlt := hb.name_lt
  omega

/-- **Calls of different uses start at different offsets.** -/
theorem start_ne (hroot : root.WellFormed source) (ha : Laid source root a member rest)
    (hb : Laid source root b member' rest') (hsite : a.reference.site ≠ b.reference.site) :
    a.node.start ≠ b.node.start := by
  intro hstart
  have hne : (a.reference.site.node :: member :: a.node :: rest) ≠
      (b.reference.site.node :: member' :: b.node :: rest') := by
    intro heq
    obtain ⟨hnode, habove⟩ := List.cons.inj heq
    rw [← ha.above_eq, ← hb.above_eq] at habove
    have heta : (⟨_, _⟩ : Site) = ⟨_, _⟩ := congr (congrArg Site.mk hnode) habove
    exact hsite heta
  -- the uses overlap, so one of them would stand below the other
  rcases ha.path.nested_or_apart hroot hb.path with hup | hup | hbefore | hbehind
  · rcases List.suffix_cons_iff.mp hup with heq | hbelow
    · exact hne heq
    · exact ha.not_suffix_above hroot hb hstart hbelow
  · rcases List.suffix_cons_iff.mp hup with heq | hbelow
    · exact hne heq.symm
    · exact hb.not_suffix_above hroot ha hstart.symm hbelow
  · have hstop := ha.name_stop
    have hstart' := hb.start_eq
    omega
  · have hstop := hb.name_stop
    have hstart' := ha.start_eq
    omega

/-- **Of two calls the later one stands inside the earlier one or behind it.** -/
theorem nested_or_apart (hroot : root.WellFormed source) (ha : Laid source root a member rest)
    (hb : Laid source root b member' rest') (hlt : a.node.start < b.node.start) :
    b.node.stop ≤ a.node.stop ∨ a.node.stop ≤ b.node.start := by
  have hpath := (ha.path.tail (by simp)).tail (by simp)
  have hpath' := (hb.path.tail (by simp)).tail (by simp)
  have hstop := hb.start_lt_stop hroot
  rcases hpath.nested_or_apart hroot hpath' with hup | hup | hbefore | hbehind
  · exact .inl (hpath'.inside_of_suffix hroot hup).2
  · have hinside := hpath.inside_of_suffix hroot hup
    omega
  · exact .inr hbefore
  · omega

end Laid

/-! ## The place of the prologue -/

/-- The prologue goes to the start of the source, or behind its interpreter line. -/
theorem prologueAnchor_cases (source : Bytes) (root : Node) :
    prologueAnchor source root = 0 ∨
    ∃ first, root.children.head? = some first ∧ first.kind = "hash_bang_line" ∧
      (prologueAnchor source root = first.stop ∨
        (prologueAnchor source root = first.stop + 1 ∧
          ∃ tail, source.drop first.stop = 0x0A :: tail) ∨
        (prologueAnchor source root = first.stop + 2 ∧
          ∃ tail, source.drop first.stop = 0x0D :: 0x0A :: tail)) := by
  rw [prologueAnchor]
  rcases hfirst : root.children.head? with _ | first
  · exact .inl rfl
  · by_cases hkind : first.kind = "hash_bang_line"
    · refine .inr ⟨first, rfl, hkind, ?_⟩
      simp only [hkind, beq_self_eq_true, if_true]
      split
      · rename_i tail hdrop
        exact .inr (.inr ⟨rfl, tail, hdrop⟩)
      · rename_i tail hdrop
        exact .inr (.inl ⟨rfl, tail, hdrop⟩)
      · exact .inl rfl
    · simp [hkind]

/-- It goes between two characters, if the first node of the file ends there. -/
theorem boundary_prologueAnchor_of_head
    (hhead : ∀ first, root.children.head? = some first → Boundary source first.stop) :
    Boundary source (prologueAnchor source root) := by
  rcases prologueAnchor_cases source root with hzero | ⟨first, hfirst, -, hanchor⟩
  · rw [hzero]
    exact Utf8.boundary_zero source
  · have hstop := hhead first hfirst
    rcases hanchor with heq | ⟨heq, tail, hdrop⟩ | ⟨heq, tail, hdrop⟩
    · rw [heq]
      exact hstop
    · rw [heq]
      exact hstop.append '\n' hdrop
    · have hreturn : Boundary source (first.stop + 1) := hstop.append '\r' hdrop
      have hdrop' : source.drop (first.stop + 1) = 0x0A :: tail := by
        rw [← List.drop_drop, hdrop]
        rfl
      rw [heq]
      exact hreturn.append '\n' hdrop'

theorem boundary_prologueAnchor (hroot : root.WellFormed source) :
    Boundary source (prologueAnchor source root) := by
  apply boundary_prologueAnchor_of_head
  intro first hfirst
  exact (hroot.spanned.boundary first (List.mem_of_head? hfirst)).2

/-- A node two levels down or more stands behind the interpreter line. -/
theorem hashBang_stop_le (hroot : root.WellFormed source) {first : Node}
    (hfirst : root.children.head? = some first) (hkind : first.kind = "hash_bang_line")
    {node parent grandparent : Node} {above : List Node}
    (hpath : Node.Path root (node :: parent :: grandparent :: above)) : first.stop ≤ node.start := by
  have hparent := hpath.tail (by simp)
  have hinside := hpath.inside_parent hroot
  induction above generalizing node parent grandparent with
  | nil =>
    cases hparent.tail (by simp) with
    | root =>
      obtain ⟨tail, htail⟩ : ∃ tail, root.children = first :: tail := by
        rcases hchildren : root.children with _ | ⟨head, tail⟩
        · simp [hchildren] at hfirst
        · simp only [hchildren, List.head?_cons, Option.some.injEq] at hfirst
          exact ⟨tail, by rw [hfirst]⟩
      have hmem := hparent.mem_children
      rw [htail] at hmem
      rcases List.mem_cons.mp hmem with rfl | hmem
      · -- the interpreter line has no parts, so the path does not go through it
        have hleaf := (hparent.spanned hroot).hashBang hkind
        have hchild := hpath.mem_children
        rw [hleaf] at hchild
        cases hchild
      · have hordered := hroot.spanned.ordered
        rw [htail] at hordered
        have hle := (List.pairwise_cons.mp hordered).1 parent hmem
        omega
  | cons next above ih =>
    have hle := ih hparent (hparent.tail (by simp)) (hparent.inside_parent hroot)
    omega

/-- **The prologue goes before every reported call.** -/
theorem Laid.anchor_le (hroot : root.WellFormed source) {call : Call} {member : Node}
    {rest : List Node} (h : Laid source root call member rest) :
    prologueAnchor source root ≤ call.node.start := by
  obtain ⟨tail, hname⟩ := h.source_eq
  rcases prologueAnchor_cases source root with hzero | ⟨first, hfirst, hkind, hanchor⟩
  · omega
  · have hle := hashBang_stop_le hroot hfirst hkind h.path
    rw [h.start_eq] at hle
    obtain ⟨gap, hgap⟩ := Nat.exists_eq_add_of_le hle
    rw [hgap, ← List.drop_drop] at hname
    -- the line end is no part of the name
    rcases hanchor with heq | ⟨heq, tail', hdrop⟩ | ⟨heq, tail', hdrop⟩
    · omega
    · rw [hdrop] at hname
      rcases gap with _ | gap
      · simp at hname
      · omega
    · rw [hdrop] at hname
      rcases gap with _ | _ | gap
      · simp at hname
      · simp at hname
      · omega

/-! ## All reported calls -/

section

variable {globals : List String}

/-- No name of the global is met twice at one place. -/
def MetOnce (uses : List Reference) : Prop :=
  uses.Pairwise fun a b => a.name = globalName → a.site ≠ b.site

theorem laid_of_offends (hsource : source = encode chars) (hroot : root.WellFormed source)
    {use : Reference} (huse : use ∈ (ScopeTree.walk source root globals).2) {call : Call}
    (hcall : call? source use = some call)
    (hoffends : Offends (.analyze source root globals) use call.node) :
    ∃ member rest, Laid source root call member rest := by
  obtain ⟨member, hcalls⟩ := hoffends.called
  obtain rfl := reference_of_call? hcall
  obtain ⟨rest, hlaid⟩ := exists_laid hsource hroot (ScopeTree.site_of_mem_walk huse).1 hoffends.text
    hcalls
  exact ⟨member, rest, hlaid⟩

/-- Every reported call stands at its place. -/
theorem laid_of_mem_reported (hsource : source = encode chars) (hroot : root.WellFormed source)
    {call : Call} (hcall : call ∈ reported source root globals) :
    ∃ member rest, Laid source root call member rest := by
  obtain ⟨placed, hplaced, -, hcalls⟩ := exists_placed source root globals
  rw [← hcalls] at hcall
  obtain ⟨⟨i, call⟩, hmem, rfl⟩ := List.mem_map.mp hcall
  obtain ⟨use, huse, hcall, hoffends⟩ := (hplaced i call).mp hmem
  exact laid_of_offends hsource hroot (List.mem_of_getElem? huse) hcall hoffends

/-- **The reported calls stand in order**: each one starts before the next, which it holds or precedes. -/
theorem reported_pairwise (hsource : source = encode chars) (hroot : root.WellFormed source)
    (honce : MetOnce (ScopeTree.walk source root globals).2) :
    (reported source root globals).Pairwise fun a b => a.node.start < b.node.start ∧
      (b.node.stop ≤ a.node.stop ∨ a.node.stop ≤ b.node.start) := by
  obtain ⟨placed, hplaced, hsorted, hcalls⟩ := exists_placed source root globals
  rw [← hcalls, List.pairwise_map]
  refine hsorted.imp_of_mem ?_
  rintro ⟨i, a⟩ ⟨j, b⟩ ha hb horder
  obtain ⟨use, huse, hcall, hoffends⟩ := (hplaced i a).mp ha
  obtain ⟨use', huse', hcall', hoffends'⟩ := (hplaced j b).mp hb
  obtain ⟨member, rest, hlaid⟩ :=
    laid_of_offends hsource hroot (List.mem_of_getElem? huse) hcall hoffends
  obtain ⟨member', rest', hlaid'⟩ :=
    laid_of_offends hsource hroot (List.mem_of_getElem? huse') hcall' hoffends'
  have hlt : a.node.start < b.node.start := by
    rcases horder with hlt | ⟨heq, hplace⟩
    · exact hlt
    · -- a tie would be between the calls of two uses
      have hname : use.name = globalName :=
        (ScopeTree.site_of_mem_walk (List.mem_of_getElem? huse)).2.trans hoffends.text
      obtain ⟨hi, rfl⟩ := List.getElem?_eq_some_iff.mp huse
      obtain ⟨hj, rfl⟩ := List.getElem?_eq_some_iff.mp huse'
      have hsite := List.pairwise_iff_getElem.mp honce i j hi hj hplace hname
      rw [← reference_of_call? hcall, ← reference_of_call? hcall'] at hsite
      exact absurd heq (hlaid.start_ne hroot hlaid' hsite)
  exact ⟨hlt, hlaid.nested_or_apart hroot hlaid' hlt⟩

end

end Console

end LoggerLint
