import Mathlib

/-!
# A mailbox of one message

A sender has a list of messages to hand over through a box that holds at most
one of them. It may put the next message only into an empty box; the receiver
takes what is in the box. `Mailbox.in_order`: what the receiver has got is at
every moment a prefix of the list, whatever the interleaving.
-/

namespace Base

/-- What is still to be sent, the box, and what the receiver has got. -/
structure Mailbox (μ : Type) where
  todo : List μ
  box : Option μ
  got : List μ

namespace Mailbox

variable {μ : Type}

inductive Next : Mailbox μ → Mailbox μ → Prop where
  | put (m : μ) (todo got : List μ) : Next ⟨m :: todo, none, got⟩ ⟨todo, some m, got⟩
  | take (m : μ) (todo got : List μ) : Next ⟨todo, some m, got⟩ ⟨todo, none, got ++ [m]⟩

def start (script : List μ) : Mailbox μ := ⟨script, none, []⟩

/-- All messages of a state, in the order of their delivery. -/
def content (s : Mailbox μ) : List μ := s.got ++ s.box.toList ++ s.todo

theorem Next.content_eq {s s' : Mailbox μ} (h : Next s s') : s'.content = s.content := by
  cases h <;> simp [content]

theorem content_of_run {script : List μ} {s : Mailbox μ}
    (h : Relation.ReflTransGen Next (start script) s) : s.content = script := by
  induction h with
  | refl => simp [content, start]
  | tail _ hn ih => rw [hn.content_eq, ih]

/-- **In order, nothing lost, nothing twice.** -/
theorem in_order {script : List μ} {s : Mailbox μ}
    (h : Relation.ReflTransGen Next (start script) s) : s.got <+: script := by
  rw [← content_of_run h, content, List.append_assoc]
  exact List.prefix_append _ _

theorem all_taken {script : List μ} {s : Mailbox μ}
    (h : Relation.ReflTransGen Next (start script) s) (ht : s.todo = []) (hb : s.box = none) :
    s.got = script := by
  rw [← content_of_run h, content, ht, hb]; simp

theorem eq_of_done {s s' : Mailbox μ} (ht : s.todo = []) (hb : s.box = none)
    (h : Relation.ReflTransGen Next s s') : s' = s := by
  induction h with
  | refl => rfl
  | tail _ hn ih =>
    subst ih
    cases hn
    · cases ht
    · cases hb

end Mailbox

end Base
