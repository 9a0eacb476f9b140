import Mathlib.Data.List.Basic

/-!
# Counting in fixed windows

A limit kept with two numbers: how often something happened since the window started, and when that was.  A
new window starts with the first attempt after the old one is over.
-/

namespace SCMessenger

/-- How often something happened since the window started. -/
structure FixedWindow where
  used : Nat
  start : Nat

namespace FixedWindow

variable {len limit now : Nat} {w : FixedWindow} {times : List Nat}

def look (len now : Nat) (w : FixedWindow) : FixedWindow := if len < now - w.start then ⟨0, now⟩ else w

def take (limit : Nat) (w : FixedWindow) : Bool × FixedWindow :=
  if w.used < limit then (true, { w with used := w.used + 1 }) else (false, w)

def attempt (len limit now : Nat) (w : FixedWindow) : Bool × FixedWindow := (w.look len now).take limit

def granted (len limit : Nat) : FixedWindow → List Nat → List Nat
  | _, [] => []
  | w, now :: rest =>
    if (w.attempt len limit now).1 then now :: granted len limit (w.attempt len limit now).2 rest
    else granted len limit (w.attempt len limit now).2 rest

def NeverBehind (len limit : Nat) : FixedWindow → List Nat → Prop
  | _, [] => True
  | w, now :: rest => w.start ≤ now ∧ NeverBehind len limit (w.attempt len limit now).2 rest

theorem look_of_le (h : now - w.start ≤ len) : w.look len now = w := if_neg (Nat.not_lt.mpr h)

theorem look_of_lt (h : len < now - w.start) : w.look len now = ⟨0, now⟩ := if_pos h

theorem take_start (limit : Nat) (w : FixedWindow) : (w.take limit).2.start = w.start := by
  unfold take
  split
  · rfl
  · rfl

theorem take_used (limit : Nat) (w : FixedWindow) :
    limit - w.used = (limit - (w.take limit).2.used) + if (w.take limit).1 then 1 else 0 := by
  by_cases h : w.used < limit
  · simp only [take, if_pos h, if_true]
    omega
  · simp [take, if_neg h]

theorem attempt_of_le (h : now - w.start ≤ len) : w.attempt len limit now = w.take limit := by
  rw [attempt, look_of_le h]

theorem attempt_of_lt (h : len < now - w.start) : w.attempt len limit now = take limit ⟨0, now⟩ := by
  rw [attempt, look_of_lt h]

/-! ## One window -/

theorem granted_length_le (hti : ∀ t ∈ times, t - w.start ≤ len) :
    (granted len limit w times).length ≤ limit - w.used := by
  induction times generalizing w with
  | nil => exact Nat.zero_le _
  | cons now r ih =>
    have hn := hti now List.mem_cons_self
    have hu := take_used limit w
    have hr : (granted len limit (w.take limit).2 r).length ≤ limit - (w.take limit).2.used := by
      refine ih fun t ht => ?_
      rw [take_start]
      exact hti t (List.mem_cons_of_mem _ ht)
    rw [granted, attempt_of_le hn]
    split
    · rename_i hta
      rw [if_pos hta] at hu
      rw [List.length_cons]
      omega
    · omega

theorem granted_length_le_of_eq {t : Nat} (ht : ∀ x ∈ times, x = t) :
    (granted len limit w times).length ≤ limit := by
  by_cases ho : len < t - w.start
  · cases times with
    | nil => exact Nat.zero_le _
    | cons now r =>
      obtain rfl := ht now List.mem_cons_self
      have hu := take_used limit ⟨0, now⟩
      have hr : (granted len limit (take limit ⟨0, now⟩).2 r).length
          ≤ limit - (take limit ⟨0, now⟩).2.used := by
        refine granted_length_le fun x hx => ?_
        rw [take_start, ht x (List.mem_cons_of_mem _ hx)]
        simp
      rw [granted, attempt_of_lt ho]
      split
      · rename_i hta
        rw [if_pos hta] at hu
        rw [List.length_cons]
        simp only at hu
        omega
      · omega
  · have hw : ∀ x ∈ times, x - w.start ≤ len := fun x hx => by
      rw [ht x hx]
      omega
    exact Nat.le_trans (granted_length_le hw) (Nat.sub_le _ _)

theorem neverBehind_of_within (hti : ∀ t ∈ times, w.start ≤ t ∧ t - w.start ≤ len) :
    NeverBehind len limit w times := by
  induction times generalizing w with
  | nil => trivial
  | cons now r ih =>
    have hn := hti now List.mem_cons_self
    refine ⟨hn.1, ?_⟩
    rw [attempt_of_le hn.2]
    refine ih fun t ht => ?_
    rw [take_start]
    exact hti t (List.mem_cons_of_mem _ ht)

theorem attempt_start_le (hs : w.start ≤ now) : (w.attempt len limit now).2.start ≤ now := by
  by_cases ho : len < now - w.start
  · have hn : (w.attempt len limit now).2.start = now := by rw [attempt_of_lt ho, take_start]
    exact Nat.le_of_eq hn
  · rw [attempt_of_le (Nat.not_lt.mp ho), take_start]
    exact hs

theorem neverBehind_of_sorted (hst : ∀ t ∈ times, w.start ≤ t) (hs : times.Pairwise (· ≤ ·)) :
    NeverBehind len limit w times := by
  induction times generalizing w with
  | nil => trivial
  | cons now r ih =>
    rw [List.pairwise_cons] at hs
    have hn := hst now List.mem_cons_self
    refine ⟨hn, ih (fun t ht => ?_) hs.2⟩
    exact Nat.le_trans (attempt_start_le hn) (hs.1 t ht)

def within (len a : Nat) (times : List Nat) : Nat := times.countP fun t => decide (a ≤ t ∧ t ≤ a + len)

end FixedWindow

end SCMessenger
