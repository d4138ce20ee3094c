import Mathlib.Data.Multiset.Basic
import Mathlib.Data.Multiset.MapFold
import Mathlib.Algebra.BigOperators.Group.Multiset.Basic
import Mathlib.Logic.Relation

/-!
# A service of one question and one answer a connection

What a server of short connections is for, with nothing of how it keeps them:
a multiset of open connections and one of those that have ended. A peer sends
until what it has sent is answered; the answer is delivered whole or not at
all. A connection may also stall for good, and it may be dropped at any time.

What a part of the connections does on its own it does beside any others
(`Steps.frame`), so connections that each take their steps do so together
(`Steps.parallel`). Nothing is ever delivered but an answer to what the same
peer had sent (`Sound.steps`).
-/

namespace Service

variable {π β : Type}

inductive Phase (β : Type) where
  | receiving
  | sending (msg : Option (List β))
  | stalled

structure Conn (π β : Type) where
  peer : π
  got : List β
  phase : Phase β

structure Ended (π β : Type) where
  peer : π
  got : List β
  sent : List β

structure State (π β : Type) where
  conns : Multiset (Conn π β)
  ended : Multiset (Ended π β)

/-- `answers p got msg`: what `p` may be answered once it has sent `got`; where
`msg` is `none` there is nothing to deliver. -/
inductive Step (answers : π → List β → Option (List β) → Prop) : State π β → State π β → Prop
  | accept (p : π) (o : Multiset (Conn π β)) (d : Multiset (Ended π β)) :
      Step answers ⟨o, d⟩ ⟨⟨p, [], .receiving⟩ ::ₘ o, d⟩
  | receive (p : π) (got bs : List β) (o : Multiset (Conn π β)) (d : Multiset (Ended π β)) :
      Step answers ⟨⟨p, got, .receiving⟩ ::ₘ o, d⟩ ⟨⟨p, got ++ bs, .receiving⟩ ::ₘ o, d⟩
  | stall (p : π) (got : List β) (o : Multiset (Conn π β)) (d : Multiset (Ended π β)) :
      Step answers ⟨⟨p, got, .receiving⟩ ::ₘ o, d⟩ ⟨⟨p, got, .stalled⟩ ::ₘ o, d⟩
  | answer (p : π) (got : List β) (msg : Option (List β)) (o : Multiset (Conn π β))
      (d : Multiset (Ended π β)) : answers p got msg →
      Step answers ⟨⟨p, got, .receiving⟩ ::ₘ o, d⟩ ⟨⟨p, got, .sending msg⟩ ::ₘ o, d⟩
  | deliver (p : π) (got msg : List β) (o : Multiset (Conn π β)) (d : Multiset (Ended π β)) :
      Step answers ⟨⟨p, got, .sending (some msg)⟩ ::ₘ o, d⟩ ⟨o, ⟨p, got, msg⟩ ::ₘ d⟩
  | drop (c : Conn π β) (o : Multiset (Conn π β)) (d : Multiset (Ended π β)) :
      Step answers ⟨c ::ₘ o, d⟩ ⟨o, ⟨c.peer, c.got, []⟩ ::ₘ d⟩

abbrev Steps (answers : π → List β → Option (List β) → Prop) : State π β → State π β → Prop :=
  Relation.ReflTransGen (Step answers)

variable {answers : π → List β → Option (List β) → Prop} {s s' : State π β}

def State.beside (s : State π β) (o : Multiset (Conn π β)) (d : Multiset (Ended π β)) :
    State π β := ⟨s.conns + o, s.ended + d⟩

theorem Step.frame (h : Step answers s s') (o : Multiset (Conn π β)) (d : Multiset (Ended π β)) :
    Step answers (s.beside o d) (s'.beside o d) := by
  cases h with
  | accept p o' d' =>
    simpa only [State.beside, Multiset.cons_add] using Step.accept p (o' + o) (d' + d)
  | receive p got bs o' d' =>
    simpa only [State.beside, Multiset.cons_add] using Step.receive p got bs (o' + o) (d' + d)
  | stall p got o' d' =>
    simpa only [State.beside, Multiset.cons_add] using Step.stall p got (o' + o) (d' + d)
  | answer p got msg o' d' ha =>
    simpa only [State.beside, Multiset.cons_add] using
      Step.answer p got msg (o' + o) (d' + d) ha
  | deliver p got msg o' d' =>
    simpa only [State.beside, Multiset.cons_add] using Step.deliver p got msg (o' + o) (d' + d)
  | drop c o' d' =>
    simpa only [State.beside, Multiset.cons_add] using Step.drop c (o' + o) (d' + d)

/-- Whatever else is there stays as it is. -/
theorem Steps.frame (h : Steps answers s s') (o : Multiset (Conn π β))
    (d : Multiset (Ended π β)) : Steps answers (s.beside o d) (s'.beside o d) := by
  induction h with
  | refl => exact .refl
  | tail _ hstep ih => exact ih.tail (hstep.frame o d)

theorem Steps.parallel {α : Type} {conn : α → Conn π β} (kept : α → List (Conn π β))
    (out : α → List (Ended π β)) (l : List α)
    (h : ∀ a ∈ l, Steps answers ⟨{conn a}, 0⟩ ⟨(kept a : List _), (out a : List _)⟩)
    (d : Multiset (Ended π β)) :
    Steps answers ⟨(l.map conn : List _), d⟩
      ⟨(l.flatMap kept : List _), d + (l.flatMap out : List _)⟩ := by
  induction l generalizing d with
  | nil => simpa using (Relation.ReflTransGen.refl : Steps answers ⟨0, d⟩ ⟨0, d⟩)
  | cons a l ih =>
    have hfirst := (h a List.mem_cons_self).frame (l.map conn : List _) d
    have hrest := (ih (fun b hb => h b (List.mem_cons_of_mem _ hb)) (out a + d)).frame (kept a) 0
    simp only [State.beside, Multiset.singleton_add, zero_add, add_zero] at hfirst hrest
    rw [List.map_cons, List.flatMap_cons, List.flatMap_cons, ← Multiset.cons_coe,
      ← Multiset.coe_add, ← Multiset.coe_add]
    refine hfirst.trans ?_
    rw [add_comm (kept a : Multiset (Conn π β)), add_comm (kept a : Multiset (Conn π β)),
      ← add_assoc, add_comm d]
    exact hrest

/-- What is being sent answers what its peer has sent, and so does what has been. -/
structure Sound (answers : π → List β → Option (List β) → Prop) (s : State π β) : Prop where
  conns : ∀ c ∈ s.conns, ∀ msg, c.phase = .sending msg → answers c.peer c.got msg
  ended : ∀ x ∈ s.ended, x.sent = [] ∨ answers x.peer x.got (some x.sent)

section Sound

variable {c : Conn π β} {x : Ended π β} {o : Multiset (Conn π β)} {d : Multiset (Ended π β)}

theorem Sound.without (hs : Sound answers ⟨c ::ₘ o, d⟩) : Sound answers ⟨o, d⟩ :=
  ⟨fun c' hc => hs.conns c' (Multiset.mem_cons_of_mem hc), hs.ended⟩

theorem Sound.withConn (hs : Sound answers ⟨o, d⟩)
    (hc : ∀ msg, c.phase = .sending msg → answers c.peer c.got msg) :
    Sound answers ⟨c ::ₘ o, d⟩ := by
  refine ⟨fun c' hm => ?_, hs.ended⟩
  rcases Multiset.mem_cons.mp hm with rfl | hm
  · exact hc
  · exact hs.conns c' hm

theorem Sound.withEnded (hs : Sound answers ⟨o, d⟩)
    (hx : x.sent = [] ∨ answers x.peer x.got (some x.sent)) : Sound answers ⟨o, x ::ₘ d⟩ := by
  refine ⟨hs.conns, fun x' hm => ?_⟩
  rcases Multiset.mem_cons.mp hm with rfl | hm
  · exact hx
  · exact hs.ended x' hm

theorem Sound.step (hs : Sound answers s) (h : Step answers s s') : Sound answers s' := by
  cases h with
  | accept p o d => exact hs.withConn (by simp)
  | receive p got bs o d => exact hs.without.withConn (by simp)
  | stall p got o d => exact hs.without.withConn (by simp)
  | answer p got msg o d ha =>
    refine hs.without.withConn fun msg' hm => ?_
    cases hm
    exact ha
  | deliver p got msg o d =>
    exact hs.without.withEnded (Or.inr (hs.conns _ (Multiset.mem_cons_self _ _) _ rfl))
  | drop c o d => exact hs.without.withEnded (Or.inl rfl)

theorem Sound.steps (hs : Sound answers s) (h : Steps answers s s') : Sound answers s' := by
  induction h with
  | refl => exact hs
  | tail _ hstep ih => exact ih.step hstep

end Sound

theorem sound_start : Sound answers (⟨0, 0⟩ : State π β) :=
  ⟨fun _ hc => absurd hc (Multiset.notMem_zero _), fun _ hx => absurd hx (Multiset.notMem_zero _)⟩

end Service
