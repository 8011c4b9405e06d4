-- SUMMARY: The items inside a protocol worker, oldest first, and that a worker handles them in that order.
import NfEngine.Protocol.Wakeup

/-!
# The order of a worker

A worker has an item in the call of `enqueueRx` that is under way, items in its
queue, an item that `dequeue` has returned, and an item it handles. Taken together
and oldest first, `inside` grows at its end with the calls of `enqueueRx` and loses
its first element when an item has been handled. The only other change is the loss
of the last element, when the queue is full.
-/

namespace NfEngine

namespace SpscQueue

variable {τ : Type}

/-- The item of a call of `enqueue`. -/
@[simp] def ProducerPc.item : ProducerPc τ → List τ
  | .loadTail item | .loadHead item _ | .storePtr item _ | .storeTail item _ => [item]
  | .idle | .returned _ => []

/-- The item that `dequeue` has returned. -/
@[simp] def ConsumerPc.item : ConsumerPc τ → List τ
  | .returned (some item) => [item]
  | _ => []

/-- The items that have come to the queue and are not yet taken over by its consumer,
    oldest first. -/
def inside (q : SpscQueue τ) : List τ :=
  q.consumer.item ++ (q.accepted.drop q.delivered.length ++ q.producer.item)

variable {q q' : SpscQueue τ}

/-- A call of `enqueue` may end without its item. -/
theorem inside_enqueueStep (h : q.Inv) (hstep : q.enqueueStep = some q') :
    q'.inside.Sublist q.inside := by
  cases enqueues_of_step hstep with
  | loadTail hpc | full hpc | room hpc => simp [inside, hpc, setProducer]
  | storePtr hpc => simp [inside, hpc, setProducer, setSlot]
  | storeTail hpc => simp [inside, hpc, List.drop_append_of_le_length h.delivered_le]

theorem inside_dequeueStep (h : q.Inv) (hstep : q.dequeueStep = some q') : q'.inside = q.inside := by
  have hconsumer := h.consumer
  cases dequeues_of_step hstep with
  | loadHead hpc | empty hpc | found hpc | loadPtr hpc => simp [inside, hpc, setConsumer]
  | clearPtr hpc => simp [inside, hpc, setConsumer, setSlot]
  | storeHead hpc =>
    -- the item leaves the slots and becomes the result
    rw [hpc] at hconsumer
    obtain ⟨_, item, rfl, hitem⟩ := hconsumer
    have hdrop : q.accepted.drop q.delivered.length =
        item :: q.accepted.drop (q.delivered.length + 1) := by
      obtain ⟨hlt, hget⟩ := List.getElem?_eq_some_iff.mp hitem
      rw [← hget]
      exact List.drop_eq_getElem_cons hlt
    simp [inside, hpc, hdrop]

end SpscQueue

namespace RxWorker

variable {τ : Type} {s s' : RxWorker τ}

/-- The item in the hands of the worker. -/
@[simp] def Pc.item : Pc τ → List τ
  | .handling _ item => [item]
  | _ => []

def inside (s : RxWorker τ) : List τ := s.pc.item ++ s.queue.inside

theorem queue_inv_of_step {a : Act τ} (h : s.queue.Inv) (hstep : s.step a = some s') :
    s'.queue.Inv := by
  cases moves_of_step hstep with
  | enqueueRx | wakeup => exact h.setProducer trivial
  | producer hq => exact h.enqueueStep hq
  | dequeue _ hidle => exact h.setConsumer trivial (by simp [hidle])
  | consumer _ hq => exact h.dequeueStep hq
  | got _ hret | empty _ hret => exact h.setConsumer trivial (by simp [hret])
  | start | loop | interrupt | wake | drain | drained | handle | stop | stopWakeup => exact h

/-- The item that an action brings. -/
def Act.item : Act τ → List τ
  | .enqueueRx item => [item]
  | _ => []

/-- A step adds the item of its call at the end, and keeps the order of the others. -/
theorem inside_of_step {a : Act τ} (h : s.queue.Inv) (hstep : s.step a = some s') :
    s'.inside.Sublist (s.inside ++ a.item) := by
  cases moves_of_step hstep with
  | enqueueRx hout =>
    rcases hout with hout | hout <;> simp [Act.item, inside, SpscQueue.inside, SpscQueue.setProducer, hout]
  | producer hq =>
    have hsub := (SpscQueue.inside_enqueueStep h hq).append_left s.pc.item
    exact hsub.trans (List.sublist_append_left _ _)
  | wakeup hpub => simp [Act.item, inside, SpscQueue.inside, SpscQueue.setProducer, hpub]
  | consumer _ hq => simp [Act.item, inside, SpscQueue.inside_dequeueStep h hq]
  | dequeue _ hidle => simp [Act.item, inside, SpscQueue.inside, SpscQueue.setConsumer, hidle]
  | got hpc hret => simp [Act.item, inside, SpscQueue.inside, SpscQueue.setConsumer, hpc, hret]
  | @empty last hpc hret =>
    cases last <;> simp [Act.item, inside, SpscQueue.inside, SpscQueue.setConsumer, hpc, hret]
  | loop hpc => cases hrunning : s.running <;> simp [Act.item, inside, hpc]
  | start hpc | interrupt hpc | wake hpc | drained hpc | handle hpc => simp [Act.item, inside, hpc]
  | drain | stop | stopWakeup => simp [Act.item, inside]

/-- A worker handles the oldest item. -/
theorem inside_of_handle {last : Bool} {item : τ} (hpc : s.pc = .handling last item)
    (hstep : s.step .handle = some s') : s.inside = item :: s'.inside := by
  have heq : s' = { s with pc := .dequeuing last } := by
    simpa [step, handle, hpc, eq_comm] using hstep
  simp [heq, inside, hpc]

end RxWorker

end NfEngine
