import Mathlib.Data.List.Infix
import Mathlib.Data.List.TakeWhile

/-!
# Byte strings and the C string routines over them

A buffer is a list of bytes, and a C string is what stands in it before the
first NUL. The searching, tokenising and bounded copying routines are given
their documented meaning: `strnstr` looks at no more than `slen` bytes and at
none behind a NUL, `strtok` skips leading delimiters and hands back the rest
of the string, `strlcpy` and `snprintf` keep one byte of the room for the NUL.
`findSub` is the index of a first occurrence; it does not move when bytes are
added behind it, nor when bytes behind it are cut away.
-/

namespace CString

abbrev Byte := UInt8
abbrev Bytes := List Byte

def ascii (s : String) : Bytes := s.toList.map fun c => c.toNat.toUInt8

def cstr (buf : Bytes) : Bytes := buf.takeWhile (· ≠ 0)

def findSub (find : Bytes) : Bytes → Option ℕ
  | [] => if find = [] then some 0 else none
  | b :: s => if find <+: b :: s then some 0 else (findSub find s).map (· + 1)

def strnstr (s find : Bytes) (slen : ℕ) : Option ℕ := findSub find (cstr (s.take slen))

/-- One call of `strtok` with a single delimiter: the token, and what the next
call continues from. -/
def strtok (delim : Byte) (s : Bytes) : Option Bytes × Bytes :=
  let t := s.dropWhile (· == delim)
  if t = [] then (none, [])
  else (some (t.takeWhile (· != delim)), (t.dropWhile (· != delim)).drop 1)

/-- The maximal runs of bytes other than `d`. -/
def tokens (d : Byte) (s : Bytes) : List Bytes := (s.splitOn d).filter (· ≠ [])

def snprintf (size : ℕ) (text : Bytes) : Bytes := text.take (size - 1)

def strlcpy (src : Bytes) (size : ℕ) : Bytes := src.take (size - 1)

def strrchr (s : Bytes) (c : Byte) : Option Bytes :=
  if c ∈ s then some (c :: (s.reverse.takeWhile (· != c)).reverse) else none

def toLower (b : Byte) : Byte := if 65 ≤ b ∧ b ≤ 90 then b + 32 else b

def strcasecmp (s t : Bytes) : Bool := s.map toLower == t.map toLower

def decimal (n : ℕ) : Bytes := (Nat.toDigits 10 n).map fun c => c.toNat.toUInt8

/-- A literal is evaluated as the list of its characters. -/
theorem ascii_ofList (l : List Char) :
    ascii (String.ofList l) = l.map fun c => c.toNat.toUInt8 := by
  rw [ascii, String.toList_ofList]

section Search

variable {find s t : Bytes} {k m : ℕ}

theorem findSub_eq_some (hf : find ≠ []) :
    findSub find s = some k ↔ find <+: s.drop k ∧ ∀ j < k, ¬ find <+: s.drop j := by
  induction s generalizing k with
  | nil => simp [findSub, hf]
  | cons b s ih =>
    by_cases hp : find <+: b :: s
    · simp only [findSub, hp, if_true, Option.some.injEq]
      constructor
      · intro hk
        subst hk
        exact ⟨hp, by simp⟩
      · intro h
        by_contra hk
        exact h.2 0 (by omega) hp
    · simp only [findSub, hp, if_false, Option.map_eq_some_iff]
      constructor
      · intro h
        obtain ⟨k', hk', rfl⟩ := h
        have hm := ih.mp hk'
        refine ⟨hm.1, ?_⟩
        intro j hj
        cases j with
        | zero => exact hp
        | succ j => exact hm.2 j (by omega)
      · intro h
        cases k with
        | zero => exact absurd h.1 hp
        | succ k => exact ⟨k, ih.mpr ⟨h.1, fun j hj => h.2 (j + 1) (by omega)⟩, rfl⟩

theorem findSub_eq_none (hf : find ≠ []) : findSub find s = none ↔ ¬ find <:+: s := by
  induction s with
  | nil => simp [findSub, hf]
  | cons b s ih =>
    rw [List.infix_cons_iff, not_or]
    by_cases hp : find <+: b :: s
    · simp [findSub, hp]
    · simp [findSub, hp, ih]

/-- A word is found on one side of a byte that it does not have. -/
theorem infix_append_cons {w a q : Bytes} {x : Byte} (hx : x ∉ w) :
    w <:+: a ++ x :: q ↔ w <:+: a ∨ w <:+: q := by
  have hpre : ∀ {t}, x ∉ t → t <+: x :: q → t = [] := by
    intro t ht hp
    rcases List.prefix_cons_iff.mp hp with rfl | ⟨u, rfl, -⟩
    · rfl
    · exact absurd List.mem_cons_self ht
  rw [List.infix_append_iff, List.infix_cons_iff]
  constructor
  · rintro (h | (h | h) | ⟨s, t, rfl, hs, ht⟩)
    · exact Or.inl h
    · rw [hpre hx h]
      exact Or.inl List.nil_infix
    · exact Or.inr h
    · rw [hpre (fun hm => hx (List.mem_append_right _ hm)) ht, List.append_nil]
      exact Or.inl hs.isInfix
  · rintro (h | h)
    · exact Or.inl h
    · exact Or.inr (Or.inl (Or.inr h))

theorem findSub_behind {b : Byte} {w l : Bytes} (h : b ∉ l) (s : Bytes) :
    findSub (b :: w) (l ++ s) = (findSub (b :: w) s).map (· + l.length) := by
  induction l with
  | nil => simp
  | cons a l ih =>
    rw [List.mem_cons, not_or] at h
    have hn : ¬ b :: w <+: a :: (l ++ s) := fun hp => h.1 (List.cons_prefix_cons.mp hp).1
    rw [List.cons_append, findSub, if_neg hn, ih h.2, Option.map_map]
    rfl

theorem findSub_first (hf : find ≠ []) (h : ¬ find <:+: t ++ find.dropLast) :
    findSub find (t ++ (find ++ s)) = some t.length := by
  rw [findSub_eq_some hf, List.drop_left]
  refine ⟨List.prefix_append _ _, fun j hj hp => h ?_⟩
  have hpos := List.length_pos_iff.mpr hf
  have hsplit : t ++ (find ++ s) = (t ++ find.dropLast) ++ (find.getLast hf :: s) := by
    conv_lhs => rw [← List.dropLast_append_getLast hf]
    simp
  rw [hsplit, List.drop_append_of_le_length (by rw [List.length_append]; omega)] at hp
  have hshort : find <+: (t ++ find.dropLast).drop j := by
    refine List.prefix_of_prefix_length_le hp (List.prefix_append _ _) ?_
    rw [List.length_drop, List.length_append, List.length_dropLast]
    omega
  exact hshort.isInfix.trans (List.drop_suffix _ _).isInfix

theorem findSub_le_length (hf : find ≠ []) (h : findSub find s = some k) :
    k + find.length ≤ s.length := by
  obtain ⟨hp, -⟩ := (findSub_eq_some hf).mp h
  have hl := hp.length_le
  have hpos : 0 < find.length := List.length_pos_iff.mpr hf
  simp only [List.length_drop] at hl
  omega

theorem findSub_of_prefix (hf : find ≠ []) (hts : t <+: s) (h : findSub find t = some k) :
    findSub find s = some k := by
  have hlen := findSub_le_length hf h
  obtain ⟨u, rfl⟩ := hts
  rw [findSub_eq_some hf] at h ⊢
  obtain ⟨hp, hmin⟩ := h
  have hd : ∀ j ≤ t.length, (t ++ u).drop j = t.drop j ++ u :=
    fun j hj => List.drop_append_of_le_length hj
  refine ⟨?_, fun j hj hpre => ?_⟩
  · rw [hd k (by omega)]
    exact hp.trans (List.prefix_append _ _)
  · rw [hd j (by omega)] at hpre
    exact hmin j hj (List.prefix_of_prefix_length_le hpre (List.prefix_append _ _)
      (by simp only [List.length_drop]; omega))

theorem findSub_take (hf : find ≠ []) (h : findSub find s = some k) (hm : k + find.length ≤ m) :
    findSub find (s.take m) = some k := by
  rw [findSub_eq_some hf] at h ⊢
  obtain ⟨hp, hmin⟩ := h
  have hsub : ∀ j, (s.take m).drop j <+: s.drop j := fun j => by
    rw [List.drop_take]
    exact List.take_prefix _ _
  refine ⟨?_, fun j hj hpre => hmin j hj (hpre.trans (hsub j))⟩
  rw [List.drop_take]
  exact List.prefix_take_iff.mpr ⟨hp, by omega⟩

theorem cstr_append_of_mem (h : 0 ∈ s) : cstr (s ++ t) = cstr s := by
  induction s with
  | nil => simp at h
  | cons b s ih =>
    by_cases hb : b = 0
    · simp [cstr, hb]
    · have hs : 0 ∈ s := (List.mem_cons.mp h).resolve_left (Ne.symm hb)
      simpa [cstr, hb] using ih hs

theorem cstr_append_of_notMem (h : 0 ∉ s) : cstr (s ++ t) = s ++ cstr t := by
  rw [cstr, cstr, List.takeWhile_append_of_pos]
  intro b hb
  have hne : b ≠ 0 := fun he => h (he ▸ hb)
  simpa using hne

theorem cstr_of_notMem (h : 0 ∉ s) : cstr s = s := by
  simpa [cstr] using cstr_append_of_notMem (t := []) h

theorem cstr_isPrefix (s : Bytes) : cstr s <+: s := List.takeWhile_prefix _

theorem zero_notMem_cstr (s : Bytes) : 0 ∉ cstr s := by
  intro h
  simpa using List.mem_takeWhile_imp h

theorem cstr_mono (h : t <+: s) : cstr t <+: cstr s := by
  obtain ⟨u, rfl⟩ := h
  by_cases hz : 0 ∈ t
  · rw [cstr_append_of_mem hz]
  · rw [cstr_of_notMem hz, cstr_append_of_notMem hz]
    exact List.prefix_append _ _

theorem cstr_take (s : Bytes) (m : ℕ) : cstr (s.take m) = (cstr s).take m :=
  List.take_takeWhile.symm

theorem strnstr_length (s find : Bytes) : strnstr s find s.length = findSub find (cstr s) := by
  rw [strnstr, List.take_length]

theorem findSub_cstr_append (hf : find ≠ []) (h : findSub find (cstr s) = some k) (t : Bytes) :
    findSub find (cstr (s ++ t)) = some k :=
  findSub_of_prefix hf (cstr_mono (List.prefix_append s t)) h

theorem findSub_cstr_take (hf : find ≠ []) (h : findSub find (cstr s) = some k)
    (hm : k + find.length ≤ m) : findSub find (cstr (s.take m)) = some k := by
  rw [cstr_take]
  exact findSub_take hf h hm

theorem findSub_cstr_of_take (hf : find ≠ []) (h : findSub find (cstr (s.take m)) = some k) :
    findSub find (cstr s) = some k :=
  findSub_of_prefix hf (cstr_mono (List.take_prefix m s)) h

theorem findSub_cstr_le_length (hf : find ≠ []) (h : findSub find (cstr s) = some k) :
    k + find.length ≤ s.length :=
  (findSub_le_length hf h).trans (cstr_isPrefix s).length_le

end Search

section Tokens

variable {d : Byte} {s tok rest : Bytes}

theorem strtok_some (h : strtok d s = (some tok, rest)) : tok ≠ [] ∧ d ∉ tok ∧ tok <:+: s := by
  simp only [strtok] at h
  split at h
  · simp at h
  · rename_i hne
    simp only [Prod.mk.injEq, Option.some.injEq] at h
    obtain ⟨rfl, -⟩ := h
    refine ⟨?_, fun hd => ?_, ?_⟩
    · obtain ⟨b, u, hu⟩ := List.exists_cons_of_ne_nil hne
      have hb : (b == d) = false := by
        have := List.head_dropWhile_not (· == d) (w := by rw [hu]; simp)
        simpa [hu] using this
      rw [hu]
      simp [bne, hb]
    · simpa using List.mem_takeWhile_imp hd
    · exact (List.takeWhile_prefix _).isInfix.trans (List.dropWhile_suffix _).isInfix

theorem strtok_rest_suffix (d : Byte) (s : Bytes) : (strtok d s).2 <:+ s := by
  simp only [strtok]
  split
  · exact List.nil_suffix
  · exact (List.drop_suffix _ _).trans ((List.dropWhile_suffix _).trans (List.dropWhile_suffix _))

theorem tokens_delimiter (d : Byte) (s : Bytes) : tokens d (d :: s) = tokens d s := by
  simp [tokens, List.splitOn_cons_eq_if_modifyHead]

theorem tokens_run (hne : tok ≠ []) (hd : d ∉ tok) : tokens d tok = [tok] := by
  simp [tokens, List.splitOn_eq_singleton hd, hne]

theorem tokens_run_append (hne : tok ≠ []) (hd : d ∉ tok) (s : Bytes) :
    tokens d (tok ++ d :: s) = tok :: tokens d s := by
  rw [tokens, List.splitOn_append_cons_self, List.splitOn_eq_singleton hd, List.singleton_append,
    List.filter_cons_of_pos (by simpa using hne)]
  rfl

theorem tokens_dropWhile (d : Byte) (s : Bytes) :
    tokens d (s.dropWhile (· == d)) = tokens d s := by
  induction s with
  | nil => rfl
  | cons b s ih =>
    by_cases hb : b = d
    · subst hb
      rw [List.dropWhile_cons_of_pos (by simp), ih, tokens_delimiter]
    · rw [List.dropWhile_cons_of_neg (by simpa using hb)]

theorem dropWhile_run (d : Byte) (s : Bytes) : s.dropWhile (· != d) = [] ∨
    ∃ r, s.dropWhile (· != d) = d :: r := by
  induction s with
  | nil => exact Or.inl rfl
  | cons b s ih =>
    by_cases hb : b = d
    · subst hb
      exact Or.inr ⟨s, List.dropWhile_cons_of_neg (by simp)⟩
    · rwa [List.dropWhile_cons_of_pos (by simpa using hb)]

/-- Successive calls of `strtok` yield the tokens one by one. -/
theorem strtok_tokens (d : Byte) (s : Bytes) :
    (strtok d s).1 = (tokens d s).head? ∧ tokens d (strtok d s).2 = (tokens d s).tail := by
  rw [← tokens_dropWhile d s]
  by_cases ht : s.dropWhile (· == d) = []
  · simp only [strtok, ht, if_true]
    exact ⟨rfl, rfl⟩
  · have hs : strtok d s = (some ((s.dropWhile (· == d)).takeWhile (· != d)),
        ((s.dropWhile (· == d)).dropWhile (· != d)).drop 1) := by
      simp only [strtok, ht, if_false]
    obtain ⟨hne, hd, -⟩ := strtok_some hs
    have hsplit := List.takeWhile_append_dropWhile (p := (· != d)) (l := s.dropWhile (· == d))
    rw [hs]
    generalize (s.dropWhile (· == d)).takeWhile (· != d) = w at hne hd hsplit
    rcases dropWhile_run d (s.dropWhile (· == d)) with hr | ⟨r, hr⟩
    · rw [hr, List.append_nil] at hsplit
      rw [hr, ← hsplit, tokens_run hne hd]
      exact ⟨rfl, rfl⟩
    · rw [hr] at hsplit ⊢
      rw [← hsplit, tokens_run_append hne hd]
      exact ⟨rfl, rfl⟩

theorem infix_of_mem_splitOn (h : tok ∈ s.splitOn d) : tok <:+: s := by
  have hjoin : ∀ l : List Bytes, tok ∈ l → tok <:+: [d].intercalate l := by
    intro l hl
    induction l with
    | nil => cases hl
    | cons t l ih =>
      cases l with
      | nil =>
        rw [List.mem_singleton.mp hl, List.intercalate_singleton]
      | cons u l =>
        rw [List.intercalate_cons_cons]
        rcases List.mem_cons.mp hl with rfl | hl
        · exact List.infix_append_of_infix_left (List.prefix_append _ _).isInfix
        · exact (ih hl).trans (List.suffix_append _ _).isInfix
  have hs := hjoin _ h
  rwa [List.intercalate_splitOn] at hs

theorem infix_of_mem_tokens (h : tok ∈ tokens d s) : tok <:+: s :=
  infix_of_mem_splitOn (List.mem_of_mem_filter h)

theorem subset_of_mem_tokens (h : tok ∈ tokens d s) : tok ⊆ s := (infix_of_mem_tokens h).subset

end Tokens

theorem strlcpy_of_length_lt {size : ℕ} {src : Bytes} (h : src.length < size) :
    strlcpy src size = src :=
  List.take_of_length_le (by omega)

section Decimal

theorem toDigits_digit {n : ℕ} {c : Char} (h : c ∈ Nat.toDigits 10 n) :
    48 ≤ c.toNat ∧ c.toNat ≤ 57 := by
  have hd := Nat.isDigit_of_mem_toDigits (by omega) (by omega) h
  simp only [Char.isDigit, Bool.and_eq_true, decide_eq_true_eq] at hd
  exact hd

theorem decimal_digit {n : ℕ} {b : Byte} (h : b ∈ decimal n) : 48 ≤ b.toNat ∧ b.toNat ≤ 57 := by
  obtain ⟨c, hc, rfl⟩ := List.mem_map.mp h
  have hd := toDigits_digit hc
  have hb : c.toNat.toUInt8.toNat = c.toNat % 2 ^ 8 := by simp
  omega

theorem decimal_chars (n : ℕ) :
    (decimal n).map (fun b => Char.ofNat b.toNat) = Nat.toDigits 10 n := by
  rw [decimal, List.map_map]
  conv_rhs => rw [← List.map_id (Nat.toDigits 10 n)]
  refine List.map_congr_left fun c hc => ?_
  have hd := toDigits_digit hc
  have hb : c.toNat.toUInt8.toNat = c.toNat := by
    have hm : c.toNat.toUInt8.toNat = c.toNat % 2 ^ 8 := by simp
    omega
  rw [Function.comp_apply, hb, Char.ofNat_toNat]
  rfl

theorem decimal_injective : Function.Injective decimal := by
  intro m n h
  rw [← Nat.ofDigitChars_ten_toDigits (n := m), ← decimal_chars, h, decimal_chars,
    Nat.ofDigitChars_ten_toDigits]

end Decimal

end CString
