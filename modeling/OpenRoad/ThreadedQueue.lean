import Mathlib.Data.List.Nodup

/-!
Queues threaded through a memory. Each member but the last holds the next one; the head and the tail
are kept aside. A push writes one member, a pop writes none, and writes elsewhere are not seen.
-/

namespace OpenRoad.ThreadedQueue

variable {ι : Type*} {link link' : ι → ι} {null head tail a b : ι} {queue : List ι}

/-- From `a` the links lead through `queue` to the tail. -/
def Leads (link : ι → ι) (tail : ι) : ι → List ι → Prop
  | a, [] => a = tail
  | a, b :: queue => link a = b ∧ Leads link tail b queue

/-- The members in order; an empty queue has a null head, whatever its tail. -/
def Threaded (null : ι) (link : ι → ι) (head tail : ι) : List ι → Prop
  | [] => head = null
  | a :: queue => head = a ∧ Leads link tail a queue

theorem Leads.congr (hlink : ∀ b ∈ a :: queue, link' b = link b) (h : Leads link tail a queue) :
    Leads link' tail a queue := by
  induction queue generalizing a with
  | nil => exact h
  | cons b queue ih =>
      obtain ⟨hab, hrest⟩ := h
      refine ⟨(hlink a List.mem_cons_self).trans hab, ih (fun c hc => ?_) hrest⟩
      exact hlink c (List.mem_cons_of_mem a hc)

theorem Leads.tail_mem (h : Leads link tail a queue) : tail ∈ a :: queue := by
  induction queue generalizing a with
  | nil => exact List.mem_singleton.mpr h.symm
  | cons b queue ih => exact List.mem_cons_of_mem a (ih h.2)

theorem Leads.eq_tail_iff (h : Leads link tail a queue) (hnodup : (a :: queue).Nodup) :
    a = tail ↔ queue = [] := by
  cases queue with
  | nil => exact ⟨fun _ => rfl, fun _ => h⟩
  | cons b queue =>
      have hmem : tail ∈ b :: queue := Leads.tail_mem h.2
      refine ⟨fun heq => absurd (heq ▸ hmem) (List.nodup_cons.mp hnodup).1, fun hnil => ?_⟩
      exact absurd hnil (List.cons_ne_nil b queue)

/-- The last member gets a link to the new one. -/
theorem Leads.push (h : Leads link tail a queue) (hnodup : (a :: queue).Nodup)
    (htail : link' tail = b) (hlink : ∀ c ∈ a :: queue, c ≠ tail → link' c = link c) :
    Leads link' b a (queue ++ [b]) := by
  induction queue generalizing a with
  | nil =>
      obtain rfl : a = tail := h
      exact ⟨htail, rfl⟩
  | cons c queue ih =>
      obtain ⟨hnotin, hnodup'⟩ := List.nodup_cons.mp hnodup
      have hne : a ≠ tail := fun heq => hnotin (heq ▸ Leads.tail_mem h.2)
      refine ⟨(hlink a List.mem_cons_self hne).trans h.1, ih h.2 hnodup' fun d hd => ?_⟩
      exact hlink d (List.mem_cons_of_mem a hd)

namespace Threaded

theorem congr (hlink : ∀ b ∈ queue, link' b = link b) (h : Threaded null link head tail queue) :
    Threaded null link' head tail queue := by
  cases queue with
  | nil => exact h
  | cons a queue => exact ⟨h.1, h.2.congr hlink⟩

theorem head_eq_null_iff (h : Threaded null link head tail queue) (hnull : ∀ a ∈ queue, a ≠ null) :
    head = null ↔ queue = [] := by
  cases queue with
  | nil => exact ⟨fun _ => rfl, fun _ => h⟩
  | cons a queue =>
      refine ⟨fun heq => absurd (h.1.symm.trans heq) (hnull a List.mem_cons_self), fun hnil => ?_⟩
      exact absurd hnil (List.cons_ne_nil a queue)

theorem single (null : ι) (link : ι → ι) (a : ι) : Threaded null link a a [a] := ⟨rfl, rfl⟩

theorem push (h : Threaded null link head tail queue) (hne : queue ≠ []) (hnodup : queue.Nodup)
    (htail : link' tail = b) (hlink : ∀ c ∈ queue, c ≠ tail → link' c = link c) :
    Threaded null link' head b (queue ++ [b]) := by
  cases queue with
  | nil => exact absurd rfl hne
  | cons a queue => exact ⟨h.1, h.2.push hnodup htail hlink⟩

theorem pop (h : Threaded null link head tail (a :: b :: queue)) :
    Threaded null link (link head) tail (b :: queue) := by
  obtain ⟨rfl, hab, hrest⟩ := h
  exact ⟨hab, hrest⟩

theorem tail_mem (h : Threaded null link head tail queue) (hne : queue ≠ []) : tail ∈ queue := by
  cases queue with
  | nil => exact absurd rfl hne
  | cons a queue => exact h.2.tail_mem

end Threaded

end OpenRoad.ThreadedQueue
