import SimpleServer.Lib.CString

/-!
# Blocks of header lines

A block is a list of lines, each with a CR LF behind it, and an empty line ends
it. Where no line is empty and none has a CR in it, the first CR LF CR LF of
the text is the end of the block, whatever stands behind, and the lines can be
read back: a field has the value of the first line that begins with its name.
-/

namespace HeaderBlock

open CString

def eol : Bytes := [13, 10]

def blankLine : Bytes := [13, 10, 13, 10]

def block (ls : List Bytes) : Bytes := ls.flatMap (· ++ eol)

def fieldLine (name value : Bytes) : Bytes := name ++ [58, 32] ++ value

def valueIn (name l : Bytes) : Option Bytes :=
  if name ++ [58, 32] <+: l then some (l.drop (name.length + 2)) else none

def lookup (name : Bytes) (ls : List Bytes) : Option Bytes := ls.findSome? (valueIn name)

/-- The value of a field in a text: the lines are the pieces between the CRs,
each beginning with the LF of the line before. -/
def fieldValue (name s : Bytes) : Option Bytes := lookup (10 :: name) (s.splitOn 13)

/-- The bytes of a line, none of which ends it. -/
structure Line (l : Bytes) : Prop where
  nonempty : l ≠ []
  noReturn : 13 ∉ l

section Blocks

variable {l name value body : Bytes} {ls : List Bytes}

theorem block_cons (l : Bytes) (ls : List Bytes) : block (l :: ls) = l ++ eol ++ block ls := rfl

theorem findSub_skip (h : 13 ∉ l) (s : Bytes) :
    findSub blankLine (l ++ s) = (findSub blankLine s).map (· + l.length) := findSub_behind h s

theorem findSub_eol {b : Byte} (hb : b ≠ 13) (s : Bytes) :
    findSub blankLine (eol ++ b :: s) = (findSub blankLine (b :: s)).map (· + 2) := by
  have h1 : ¬ blankLine <+: 13 :: 10 :: b :: s := by
    intro hp
    have h2 := (List.cons_prefix_cons.mp (List.cons_prefix_cons.mp hp).2).2
    exact hb (List.cons_prefix_cons.mp h2).1.symm
  have h2 : ¬ blankLine <+: 10 :: b :: s :=
    fun hp => absurd (List.cons_prefix_cons.mp hp).1 (by decide)
  change findSub blankLine (13 :: 10 :: b :: s) = _
  rw [findSub, if_neg h1, findSub, if_neg h2, Option.map_map]
  rfl

theorem findSub_block (hne : ls ≠ []) (h : ∀ l ∈ ls, Line l) (body : Bytes) :
    ∃ k, findSub blankLine (block ls ++ eol ++ body) = some k ∧ (block ls ++ eol).length = k + 4 := by
  induction ls with
  | nil => exact absurd rfl hne
  | cons l ls ih =>
    have hl := h l List.mem_cons_self
    cases ls with
    | nil =>
      refine ⟨l.length, ?_, by simp [block, eol]⟩
      have hs : block [l] ++ eol ++ body = l ++ (blankLine ++ body) := by
        simp [block, eol, blankLine]
      have h0 : findSub blankLine (blankLine ++ body) = some 0 :=
        (findSub_eq_some (by decide)).mpr ⟨List.prefix_append _ _, by simp⟩
      rw [hs, findSub_skip hl.noReturn, h0, Option.map_some, Nat.zero_add]
    | cons l' ls =>
      obtain ⟨k, hk, hlen⟩ := ih (List.cons_ne_nil _ _) fun m hm => h m (List.mem_cons_of_mem l hm)
      have hl' := h l' (by simp)
      obtain ⟨b, t, hb⟩ := List.exists_cons_of_ne_nil hl'.nonempty
      have hb13 : b ≠ 13 := by
        intro he
        apply hl'.noReturn
        rw [hb, he]
        exact List.mem_cons_self
      refine ⟨k + 2 + l.length, ?_, ?_⟩
      · have hs : block (l :: l' :: ls) ++ eol ++ body =
            l ++ (eol ++ b :: (t ++ eol ++ block ls ++ eol ++ body)) := by
          simp [block_cons, hb]
        have hrest : block (l' :: ls) ++ eol ++ body =
            b :: (t ++ eol ++ block ls ++ eol ++ body) := by
          simp [block_cons, hb]
        rw [hrest] at hk
        rw [hs, findSub_skip hl.noReturn, findSub_eol hb13, hk]
        rfl
      · rw [block_cons, List.append_assoc, List.length_append, List.length_append, hlen]
        simp only [eol, List.length_cons, List.length_nil]
        omega

theorem splitOn_block (h : ∀ m ∈ l :: ls, 13 ∉ m) :
    (block (l :: ls) ++ eol).splitOn 13 = l :: (ls.map (10 :: ·) ++ [[10], [10]]) := by
  induction ls generalizing l with
  | nil =>
    have hs : block [l] ++ eol = l ++ 13 :: [10, 13, 10] := by simp [block, eol]
    rw [hs, List.splitOn_append_cons_self, List.splitOn_eq_singleton (h l List.mem_cons_self)]
    rfl
  | cons l' ls ih =>
    have hs : block (l :: l' :: ls) ++ eol = l ++ 13 :: (block ((10 :: l') :: ls) ++ eol) := by
      simp [block_cons, eol]
    have h' : ∀ m ∈ (10 :: l') :: ls, 13 ∉ m := by
      intro m hm
      rcases List.mem_cons.mp hm with rfl | hm
      · rw [List.mem_cons, not_or]
        exact ⟨by decide, h l' (by simp)⟩
      · exact h m (by simp [hm])
    rw [hs, List.splitOn_append_cons_self, List.splitOn_eq_singleton (h l List.mem_cons_self),
      ih h']
    rfl

theorem valueIn_eol (name l : Bytes) : valueIn (10 :: name) (10 :: l) = valueIn name l := by
  have hp : 10 :: name ++ [58, 32] <+: 10 :: l ↔ name ++ [58, 32] <+: l := by
    rw [List.cons_append, List.cons_prefix_cons]
    exact and_iff_right rfl
  have hd : (10 :: l).drop ((10 :: name).length + 2) = l.drop (name.length + 2) := by
    rw [List.length_cons, Nat.add_right_comm, List.drop_succ_cons]
  rw [valueIn, valueIn, hd]
  simp only [hp]

/-- Reading a field of a block: the first line does not count. -/
theorem fieldValue_block (hl : l.head? ≠ some 10) (h : ∀ m ∈ l :: ls, 13 ∉ m) (name : Bytes) :
    fieldValue name (block (l :: ls) ++ eol) = lookup name ls := by
  have hfirst : valueIn (10 :: name) l = none := by
    apply if_neg
    rintro ⟨t, rfl⟩
    exact hl rfl
  have hnil : valueIn name [] = none := by
    apply if_neg
    intro hp
    simpa using List.prefix_nil.mp hp
  rw [fieldValue, splitOn_block h, lookup, List.findSome?_cons_of_isNone (by rw [hfirst]; rfl)]
  induction ls with
  | nil => simp [lookup, valueIn_eol, hnil]
  | cons m ls ih =>
    have ih' := ih fun x hx => h x (by
      rcases List.mem_cons.mp hx with rfl | hx
      · exact List.mem_cons_self
      · simp [hx])
    rw [List.map_cons, List.cons_append, lookup, List.findSome?_cons, List.findSome?_cons,
      valueIn_eol, ih']
    rfl

theorem lookup_here (name value : Bytes) (ls : List Bytes) :
    lookup name (fieldLine name value :: ls) = some value := by
  have hv : valueIn name (fieldLine name value) = some value := by
    have hp : name ++ [58, 32] <+: fieldLine name value := List.prefix_append _ _
    have hd : (fieldLine name value).drop (name.length + 2) = value := by
      rw [fieldLine]
      exact List.drop_left' (by simp)
    rw [valueIn, if_pos hp, hd]
  rw [lookup, List.findSome?_cons, hv]

theorem lookup_skip {other : Bytes}
    (h : ¬ (name ++ [58, 32]).take (other.length + 2) <+: other ++ [58, 32]) (value : Bytes)
    (ls : List Bytes) : lookup name (fieldLine other value :: ls) = lookup name ls := by
  have hv : valueIn name (fieldLine other value) = none := by
    apply if_neg
    intro hp
    have ht := hp.take (other.length + 2)
    have hl : (fieldLine other value).take (other.length + 2) = other ++ [58, 32] :=
      List.take_left' (by simp)
    rw [hl] at ht
    exact h ht
  rw [lookup, List.findSome?_cons, hv]
  rfl

end Blocks

end HeaderBlock
