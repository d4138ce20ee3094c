import SimpleServer.StagedResponse

/-!
# The input buffer under every sequence of `append` calls

A call either stores its chunk or refuses it, and one that refuses touches
neither the buffer nor its length and capacity. The capacity starts at 1024
and only ever doubles; since the limit on a request is itself 1024 doubled
three times, no capacity that the loop reaches for an admissible request
passes the limit.
-/

namespace SimpleServer

open CString FileTree SlotArray

/-- The call returns before it copies anything: the request would pass the
limit, or the buffer has to grow and `realloc` fails. -/
def Refuses (c : Client) (data : Bytes) (realloc : Bool) : Prop :=
  maxRequestSize < c.inputLength + data.length ∨
    c.inputCapacity < c.inputLength + data.length ∧ realloc = false

instance (c : Client) (data : Bytes) (realloc : Bool) : Decidable (Refuses c data realloc) :=
  inferInstanceAs (Decidable (_ ∨ _))

def startCapacity (c : Client) : ℕ := if c.inputCapacity ≠ 0 then c.inputCapacity * 2 else 1024

def appends (c : Client) (calls : List (Chunk × Bool)) : Client :=
  calls.foldl (fun c a => append c a.1.bytes a.2) c

def accepted : Client → List (Chunk × Bool) → Bytes
  | _, [] => []
  | c, (chunk, realloc) :: calls =>
    (if Refuses c chunk.bytes realloc then [] else chunk.bytes) ++
      accepted (append c chunk.bytes realloc) calls

section Doubling

variable {need cap fuel : ℕ}

theorem growCapacity_reaches (hcap : 0 < cap) (hf : need ≤ cap + fuel) :
    need ≤ growCapacity need fuel cap := by
  induction fuel generalizing cap with
  | zero => exact hf
  | succ fuel ih =>
    simp only [growCapacity]
    split_ifs with hlt
    · apply ih
      · omega
      · omega
    · omega

theorem growCapacity_mono {more : ℕ} (h : need ≤ growCapacity need fuel cap) (hf : fuel ≤ more) :
    growCapacity need more cap = growCapacity need fuel cap := by
  induction fuel generalizing more cap with
  | zero =>
    have hcap : ¬ cap < need := Nat.not_lt.mpr h
    cases more with
    | zero => rfl
    | succ more => simp only [growCapacity, hcap, if_false]
  | succ fuel ih =>
    obtain ⟨m, rfl⟩ : ∃ m, more = m + 1 := ⟨more - 1, by omega⟩
    simp only [growCapacity] at h ⊢
    split_ifs at h ⊢
    · exact ih h (by omega)
    · rfl

/-- The capacities below the limit, from 1024 on. -/
def Doubled (cap : ℕ) : Prop := ∃ k ≤ 3, cap = 1024 * 2 ^ k

theorem Doubled.le_limit (h : Doubled cap) : cap ≤ maxRequestSize := by
  obtain ⟨k, hk, rfl⟩ := h
  exact Nat.mul_le_mul_left 1024 (Nat.pow_le_pow_right (by decide) hk)

theorem Doubled.double (h : Doubled cap) (hlt : cap < maxRequestSize) : Doubled (cap * 2) := by
  obtain ⟨k, hk, rfl⟩ := h
  have hne : k ≠ 3 := by
    intro h3
    rw [h3] at hlt
    exact absurd hlt (by decide)
  exact ⟨k + 1, by omega, by rw [pow_succ, Nat.mul_assoc]⟩

theorem growCapacity_doubled (h : Doubled cap) (hneed : need ≤ maxRequestSize) :
    Doubled (growCapacity need fuel cap) := by
  induction fuel generalizing cap with
  | zero => exact h
  | succ fuel ih =>
    simp only [growCapacity]
    split_ifs with hlt
    · exact ih (h.double (hlt.trans_le hneed))
    · exact h

end Doubling

section Calls

variable {c : Client} {data : Bytes} {realloc : Bool}

theorem append_refused (h : Refuses c data realloc) :
    (append c data realloc).inBuf = c.inBuf ∧
      (append c data realloc).inputLength = c.inputLength ∧
      (append c data realloc).inputCapacity = c.inputCapacity := by
  by_cases hover : maxRequestSize < c.inputLength + data.length
  · rw [append_over hover]
    exact ⟨rfl, rfl, rfl⟩
  · rw [append_failed hover (h.resolve_left hover)]
    exact ⟨rfl, rfl, rfl⟩

theorem append_accepted (h : ¬ Refuses c data realloc) :
    append c data realloc = store { c with
      inputCapacity := if c.inputCapacity < c.inputLength + data.length then
        growCapacity (c.inputLength + data.length) (c.inputLength + data.length) (startCapacity c)
      else c.inputCapacity } data := by
  rw [Refuses, not_or] at h
  by_cases hcap : c.inputCapacity < c.inputLength + data.length
  · have hr : realloc ≠ false := fun hr => h.2 ⟨hcap, hr⟩
    rw [if_pos hcap]
    exact (if_neg h.1).trans ((if_pos hcap).trans (if_neg hr))
  · rw [if_neg hcap]
    exact (if_neg h.1).trans (if_neg hcap)

end Calls

/-- The buffer holds `data` and nothing else that counts, within its capacity
and the limit. -/
structure Buffered (c : Client) (data : Bytes) : Prop where
  length : c.inputLength = data.length
  content : (c.inBuf.getD []).take c.inputLength = data
  fits : c.inputLength ≤ c.inputCapacity
  limit : c.inputLength ≤ maxRequestSize
  capacity : c.inputCapacity = 0 ∨ Doubled c.inputCapacity

section Steps

variable {c c' : Client} {data : Bytes}

theorem initClient_buffered (old : Client) (fd : ℕ) : Buffered (initClient old fd) [] :=
  ⟨rfl, rfl, le_rfl, Nat.zero_le _, Or.inl rfl⟩

theorem Buffered.congr (h : Buffered c data) (hb : c'.inBuf = c.inBuf)
    (hl : c'.inputLength = c.inputLength) (hc : c'.inputCapacity = c.inputCapacity) :
    Buffered c' data := by
  constructor
  · rw [hl]
    exact h.length
  · rw [hb, hl]
    exact h.content
  · rw [hl, hc]
    exact h.fits
  · rw [hl]
    exact h.limit
  · rw [hc]
    exact h.capacity

theorem startCapacity_doubled (h : Buffered c data) (hlt : c.inputCapacity < maxRequestSize) :
    Doubled (startCapacity c) := by
  by_cases h0 : c.inputCapacity ≠ 0
  · rw [startCapacity, if_pos h0]
    exact (h.capacity.resolve_left h0).double hlt
  · rw [startCapacity, if_neg h0]
    exact ⟨0, by decide, rfl⟩

theorem startCapacity_pos (c : Client) : 0 < startCapacity c := by
  rw [startCapacity]
  split_ifs with h0
  · omega
  · decide

theorem store_buffered {cap : ℕ} {chunk : Bytes} (h : Buffered c data)
    (hfits : c.inputLength + chunk.length ≤ cap)
    (hlimit : c.inputLength + chunk.length ≤ maxRequestSize) (hcap : cap = 0 ∨ Doubled cap) :
    Buffered (store { c with inputCapacity := cap } chunk) (data ++ chunk) := by
  refine ⟨?_, ?_, hfits, hlimit, hcap⟩
  · simp only [store, List.length_append, h.length]
  · simp only [store, Option.getD_some, h.content]
    rw [h.length, ← List.length_append, List.take_length]

theorem append_buffered (h : Buffered c data) (chunk : Bytes) (realloc : Bool) :
    Buffered (append c chunk realloc)
      (data ++ if Refuses c chunk realloc then [] else chunk) := by
  by_cases hr : Refuses c chunk realloc
  · obtain ⟨hb, hl, hc⟩ := append_refused hr
    rw [if_pos hr, List.append_nil]
    exact h.congr hb hl hc
  · have hlimit : c.inputLength + chunk.length ≤ maxRequestSize :=
      Nat.le_of_not_lt (not_or.mp hr).1
    rw [append_accepted hr, if_neg hr]
    split_ifs with hgrow
    · have hstart := startCapacity_doubled h (hgrow.trans_le hlimit)
      apply store_buffered h _ hlimit (Or.inr (growCapacity_doubled hstart hlimit))
      exact growCapacity_reaches (startCapacity_pos c) (Nat.le_add_left _ _)
    · exact store_buffered h (Nat.le_of_not_lt hgrow) hlimit h.capacity

theorem appends_buffered (h : Buffered c data) (calls : List (Chunk × Bool)) :
    Buffered (appends c calls) (data ++ accepted c calls) := by
  induction calls generalizing c data with
  | nil =>
    rw [accepted, List.append_nil]
    exact h
  | cons a calls ih =>
    obtain ⟨chunk, realloc⟩ := a
    rw [accepted, ← List.append_assoc]
    exact ih (append_buffered h chunk.bytes realloc)

end Steps

/-- A fresh client's buffer is in step with its length, capacity and limit
after any calls of `append`, and the next call's loop ends; if that call
refuses its chunk, the buffer stays as it is. -/
theorem append_keeps_buffer (old : Client) (fd : ℕ) (calls : List (Chunk × Bool)) :
    let c := appends (initClient old fd) calls
    c.inputLength ≤ c.inputCapacity ∧ c.inputLength ≤ maxRequestSize ∧
    (c.inputCapacity = 0 ∨ ∃ k, c.inputCapacity = 1024 * 2 ^ k) ∧ c.inputCapacity ≤ 8192 ∧
    (c.inBuf.getD []).take c.inputLength = accepted (initClient old fd) calls ∧
    (accepted (initClient old fd) calls).length = c.inputLength ∧
    ∀ (chunk : Chunk) (realloc : Bool),
      let need := c.inputLength + chunk.bytes.length
      (∀ fuel, need ≤ fuel → need ≤ growCapacity need fuel (startCapacity c) ∧
        growCapacity need fuel (startCapacity c) = growCapacity need need (startCapacity c)) ∧
      (Refuses c chunk.bytes realloc →
        (append c chunk.bytes realloc).inBuf = c.inBuf ∧
        (append c chunk.bytes realloc).inputLength = c.inputLength ∧
        (append c chunk.bytes realloc).inputCapacity = c.inputCapacity) := by
  intro c
  have hb : Buffered c (accepted (initClient old fd) calls) :=
    appends_buffered (initClient_buffered old fd) calls
  refine ⟨hb.fits, hb.limit, ?_, ?_, hb.content, hb.length.symm, ?_⟩
  · rcases hb.capacity with h | ⟨k, -, h⟩
    · exact Or.inl h
    · exact Or.inr ⟨k, h⟩
  · rcases hb.capacity with h | h
    · rw [h]
      exact Nat.zero_le _
    · exact h.le_limit
  · intro chunk realloc need
    have hreach : need ≤ growCapacity need need (startCapacity c) :=
      growCapacity_reaches (startCapacity_pos c) (Nat.le_add_left _ _)
    refine ⟨?_, append_refused⟩
    intro fuel hf
    have hmono := growCapacity_mono hreach hf
    exact ⟨hmono ▸ hreach, hmono⟩

end SimpleServer
