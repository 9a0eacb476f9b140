import Mathlib.Algebra.GroupWithZero.Nat
import SCMessenger.Store.Outbox

/-!
# The total of the outbox

An outbox in memory keeps, beside its queues, how many messages there are, and each operation adjusts that
number on its own.
-/

namespace SCMessenger

/-- The recorded total is right, and neither it nor a queue is over its limit. -/
structure Counted (queues : Queues String QueuedMessage) (total : Nat) : Prop where
  total_eq : total = queues.all.length
  total_le : total ≤ maxTotalQueued
  perPeer : ∀ q ∈ queues, q.2.length ≤ maxQueuePerPeer

namespace Outbox

def subtracted (queues : Queues String QueuedMessage) (call : OutboxEnv × OutboxOp) : Nat :=
  match call.2 with
  | .remove messageId => if queues.all.any (·.messageId = messageId) then 1 else 0
  | .drainForPeer recipientId => (queues.queueAt recipientId).length
  | .flushPeerMessages recipientId => ((queues.queueAt recipientId).filter (flushes call.1.nowMs)).length
  | .removeExpired maxAgeSecs => (queues.all.filter (expired call.1.nowMs maxAgeSecs)).length
  | _ => 0

def added (outbox : Outbox) (call : OutboxEnv × OutboxOp) : Nat :=
  match call.2 with
  | .enqueue msg => if (outbox.enqueue call.1 msg).1.isOk then 1 else 0
  | _ => 0

end Outbox

namespace Counted

open Outbox

variable {queues queues' : Queues String QueuedMessage} {total n : Nat} {owed : List QueuedMessage}

/-- Messages that are taken out were counted, so the total can be lowered by their number. -/
theorem shrink (h : Counted queues total) (hs : queues'.Shrinks queues)
    (hl : queues'.all.length + n = queues.all.length) : n ≤ total ∧ Counted queues' (total - n) := by
  obtain ⟨he, hle, hp⟩ := h
  refine ⟨by omega, by omega, by omega, ?_⟩
  intro q' hq'
  obtain ⟨q, hq, hsr⟩ := hs q' hq'
  exact Nat.le_trans hsr (hp q hq)

theorem pushBack (h : Counted queues total) (r : String) (msg : QueuedMessage)
    (ht : total < maxTotalQueued) (hr : (queues.queueAt r).length < maxQueuePerPeer) :
    Counted (queues.pushBack r msg) (total + 1) where
  total_eq := by rw [Queues.length_all_pushBack, h.total_eq]
  total_le := ht
  perPeer := Queues.length_le_of_mem_pushBack h.perPeer hr

theorem updateFirst (h : Counted queues total) (p : QueuedMessage → Bool)
    (f : QueuedMessage → QueuedMessage) : Counted (queues.updateFirst p f) total := by
  have hl : (queues.updateFirst p f).all.length + 0 = queues.all.length := by
    rw [Queues.all_updateFirst]
    exact length_updateFirst queues.all
  exact (h.shrink (Queues.shrinks_updateFirst p f queues) hl).2

theorem length_removeFirst {p : QueuedMessage → Bool} (ha : queues.all.any p = true) :
    (queues.removeFirst p).all.length + 1 = queues.all.length := by
  obtain ⟨x, hx, hp⟩ := List.any_eq_true.mp ha
  have hpo := List.length_pos_of_mem hx
  rw [Queues.all_removeFirst, List.length_eraseP_of_mem hx hp]
  omega

/-- What a call leaves: an outbox in memory whose total is right again, and how it came about. -/
structure After (outbox : Outbox) (queues : Queues String QueuedMessage) (total : Nat) (call : OutboxEnv × OutboxOp)
    (after : Outbox) : Prop where
  subtracted_le : subtracted queues call ≤ total
  counted : ∃ queues' total', after = ⟨.memory queues' total'⟩ ∧ Counted queues' total'
    ∧ total' + subtracted queues call = total + added outbox call

/-- **Every operation takes off what was counted, and leaves the total right.** -/
theorem step (h : Counted queues total) (owed : List QueuedMessage) (c : OutboxEnv × OutboxOp) :
    After ⟨.memory queues total⟩ queues total c (OutboxRun.step ⟨⟨.memory queues total⟩, owed⟩ c).outbox := by
  obtain ⟨env, op⟩ := c
  -- an update of one message
  have hu (p : QueuedMessage → Bool) (f : QueuedMessage → QueuedMessage) :
      ∃ queues' t', (⟨.memory (queues.updateFirst p f) total⟩ : Outbox) = ⟨.memory queues' t'⟩
        ∧ Counted queues' t' ∧ t' + 0 = total + 0 :=
    ⟨_, _, rfl, h.updateFirst p f, rfl⟩
  -- messages that are taken out
  have ht {queues' : Queues String QueuedMessage} {n : Nat} (hs : queues'.Shrinks queues)
      (hln : queues'.all.length + n = queues.all.length) :
      n ≤ total ∧ ∃ q t, (⟨.memory queues' (total - n)⟩ : Outbox) = ⟨.memory q t⟩ ∧ Counted q t ∧ t + n = total + 0 := by
    obtain ⟨hl, hc⟩ := h.shrink hs hln
    exact ⟨hl, _, _, rfl, hc, by omega⟩
  cases op with
  | enqueue msg =>
    refine ⟨Nat.zero_le _, ?_⟩
    by_cases hto : maxTotalQueued ≤ total
    · simp only [OutboxRun.step, subtracted, added, enqueue, if_pos hto]
      exact ⟨queues, total, rfl, h, rfl⟩
    · by_cases hp : maxQueuePerPeer ≤ (queues.queueAt msg.recipientId).length
      · simp only [OutboxRun.step, subtracted, added, enqueue, if_neg hto, if_pos hp]
        exact ⟨queues, total, rfl, h, rfl⟩
      · simp only [OutboxRun.step, subtracted, added, enqueue, if_neg hto, if_neg hp]
        exact ⟨_, _, rfl, h.pushBack _ msg (Nat.not_le.mp hto) (Nat.not_le.mp hp), rfl⟩
  | drainForPeer r =>
    obtain ⟨hl, ha⟩ := ht (Queues.shrinks_dropQueue r queues)
      (Queues.length_all_dropQueue r queues)
    exact ⟨hl, ha⟩
  | flushPeerMessages r =>
    have hln := Queues.length_all_retainAt r (fun m => !flushes env.nowMs m) queues
    simp only [Bool.not_not] at hln
    obtain ⟨hl, ha⟩ := ht (Queues.shrinks_retainAt r _ queues) hln
    exact ⟨hl, ha⟩
  | markInCustody mi s => exact ⟨Nat.zero_le _, hu _ _⟩
  | markNotInCustody mi => exact ⟨Nat.zero_le _, hu _ _⟩
  | recordAttempt mi =>
    refine ⟨Nat.zero_le _, ?_⟩
    show ∃ queues' t', (Outbox.recordAttempt _ env mi).2 = _ ∧ _
    unfold Outbox.recordAttempt
    split
    · exact ⟨queues, total, rfl, h, rfl⟩
    · split
      · exact ⟨queues, total, rfl, h, rfl⟩
      · exact hu _ _
  | markSent mi => exact ⟨Nat.zero_le _, hu _ _⟩
  | markFailed mi => exact ⟨Nat.zero_le _, hu _ _⟩
  | remove mi =>
    by_cases han : queues.all.any (fun m => m.messageId = mi) = true
    · obtain ⟨hl, ha⟩ := ht (Queues.shrinks_removeFirst _ queues) (length_removeFirst han)
      have ho : subtracted queues (env, .remove mi) = 1 := if_pos han
      refine ⟨ho ▸ hl, ?_⟩
      rw [ho]
      simp only [OutboxRun.step, Outbox.remove, if_pos han]
      exact ha
    · have hn : subtracted queues (env, .remove mi) = 0 := if_neg han
      refine ⟨hn ▸ Nat.zero_le _, ?_⟩
      rw [hn]
      simp only [OutboxRun.step, Outbox.remove, if_neg han]
      exact ⟨queues, total, rfl, h, rfl⟩
  | removeExpired ma =>
    have hsp := List.length_eq_length_filter_add (l := queues.all) (expired env.nowMs ma)
    have hk := congrArg List.length (Queues.all_retain (fun m => !expired env.nowMs ma m) queues)
    have hr : queues.all.length - (queues.retain fun m => !expired env.nowMs ma m).all.length
        = (queues.all.filter (expired env.nowMs ma)).length := by omega
    obtain ⟨hl, ha⟩ := ht (n := (queues.all.filter (expired env.nowMs ma)).length)
      (Queues.shrinks_retain (fun m => !expired env.nowMs ma m) queues) (by omega)
    refine ⟨hl, ?_⟩
    simp only [OutboxRun.step, Outbox.removeExpired, hr]
    exact ha

end Counted

namespace OutboxRun

def Counts (run : OutboxRun) : Prop :=
  ∃ queues total, run.outbox = ⟨.memory queues total⟩ ∧ Counted queues total

theorem Counts.step {run : OutboxRun} (h : run.Counts) (c : OutboxEnv × OutboxOp) :
    (run.step c).Counts := by
  obtain ⟨o, owed⟩ := run
  obtain ⟨queues, total, rfl, hc⟩ := h
  obtain ⟨queues', t', ha, hc', -⟩ := (hc.step owed c).counted
  exact ⟨queues', t', ha, hc'⟩

theorem Counts.foldl {run : OutboxRun} (h : run.Counts) (c : List (OutboxEnv × OutboxOp)) :
    (c.foldl OutboxRun.step run).Counts := by
  induction c generalizing run with
  | nil => exact h
  | cons call r ih => exact ih (h.step call)

theorem counts_new : (⟨.new, []⟩ : OutboxRun).Counts := ⟨[], 0, rfl, rfl, Nat.zero_le _, by simp⟩

end OutboxRun

/-- **The total is right after every sequence of operations**, within the limits, and never underflows. -/
theorem outbox_accounting (calls : List (OutboxEnv × OutboxOp)) :
    ∃ queues total, (calls.foldl OutboxRun.step ⟨.new, []⟩).outbox = ⟨.memory queues total⟩
      ∧ total = (queues.map fun q => q.2.length).sum ∧ total ≤ 10000 ∧ (∀ q ∈ queues, q.2.length ≤ 1000)
      ∧ ∀ call, Outbox.subtracted queues call ≤ total
        ∧ ∃ queues' total',
          ((calls.foldl OutboxRun.step ⟨.new, []⟩).step call).outbox = ⟨.memory queues' total'⟩
            ∧ total' + Outbox.subtracted queues call = total + Outbox.added ⟨.memory queues total⟩ call := by
  obtain ⟨queues, total, ho, hc⟩ := OutboxRun.counts_new.foldl calls
  have hs : queues.all.length = (queues.map fun q => q.2.length).sum := by
    rw [Queues.all, List.length_flatMap]
  refine ⟨queues, total, ho, hc.total_eq.trans hs, hc.total_le, hc.perPeer, ?_⟩
  intro call
  generalize calls.foldl OutboxRun.step ⟨.new, []⟩ = run at ho
  obtain ⟨o, owed⟩ := run
  subst ho
  obtain ⟨hl, queues', total', ha, -, ht⟩ := hc.step owed call
  exact ⟨hl, queues', total', ha, ht⟩

end SCMessenger
