import Mathlib.Data.List.GetD
import Mathlib.Data.Nat.Init
import Mathlib.Logic.Function.Basic
import Safepoint.Syncpoint

/-!
# The handshake of a syncpoint

A syncpoint among the threads that check it and the side that stops them. A `Handshake` is the three
flags together with what is left of each thread's check and what the test side is doing, and an
`Act` is one atomic thing that can happen: an access of a thread, an access of the test side, or the
beginning of a call of either. Acts come in any order, so the runs are all the interleavings there
are. The test side arms only while it has no waiter, and it resumes each waiter once.

An arming is told by the step at which it raises the armed flag, and a check by the step of its
swap. A check that takes an arming is stopped by it. The released flag does not tell armings apart,
so the resumption of a waiter lets a check go that polls before the next arming lowers the flag, and
a check that polls later stays where it is.

## Key results

- `Run.exists_takes`: a check that is stopped has taken an arming
- `Run.takes_unique`, `Run.takes_before_disarm`: at most one check takes an arming, and none does
  once its waiter is being resumed
- `Run.released_iff`: after a resumption the released flag is up, unless a later arming has taken
  the release back
- `Run.released_unless_rearmed`: what stops a check and what lets it go
-/

namespace Safepoint

open Syncpoint

/-- What the test side of a syncpoint is doing. -/
inductive Tester where
  /-- It has no waiter. -/
  | free
  /-- It arms the syncpoint. -/
  | arming (left : Arming)
  /-- It has a waiter, and has not begun to resume it. -/
  | holding
  /-- It waits with its waiter until a check has arrived. -/
  | pausing (left : Pausing)
  /-- It resumes its waiter. -/
  | resuming (left : Resuming)
deriving DecidableEq, Repr

namespace Tester

/-- An access of the test side. Outside of its calls it makes none. -/
def step (p : Syncpoint) : Tester → Syncpoint × Tester
  | free => (p, free)
  | arming left =>
    let (p, left) := left.step p
    (p, if left = .finished then holding else arming left)
  | holding => (p, holding)
  | pausing left =>
    let (p, left) := left.step p
    (p, if left = .finished then holding else pausing left)
  | resuming left =>
    let (p, left) := left.step p
    (p, if left = .finished then free else resuming left)

/-- Whether the test side has lowered the released flag, and not raised it again. -/
def holdsBack : Tester → Bool
  | free | arming .clearArrived | arming .clearReleased | resuming .finished => false
  | arming .raiseArmed | arming .finished | holding | pausing _ => true
  | resuming .clearArmed | resuming .raiseReleased => true

/-- Only two accesses write the released flag. -/
theorem released_step (p : Syncpoint) {w : Tester} (hraise : w ≠ .resuming .raiseReleased)
    (hlower : w ≠ .arming .clearReleased) : (w.step p).1.released = p.released := by
  cases w with
  | free | holding => rfl
  | arming left => cases left <;> simp_all [step, Arming.step]
  | pausing left => cases left <;> rfl
  | resuming left => cases left <;> simp_all [step, Resuming.step]

/-- Only two accesses write the armed flag. -/
theorem armed_step (p : Syncpoint) {w : Tester} (hraise : w ≠ .arming .raiseArmed)
    (hlower : w ≠ .resuming .clearArmed) : (w.step p).1.armed = p.armed := by
  cases w with
  | free | holding => rfl
  | arming left => cases left <;> simp_all [step, Arming.step]
  | pausing left => cases left <;> rfl
  | resuming left => cases left <;> simp_all [step, Resuming.step]

end Tester

namespace Syncpoint.Checking

/-- Whether a check has taken an arming and not got past yet. -/
def isStopped : Checking → Bool
  | raiseArrived | poll => true
  | swapArmed | passed => false

/-- A check does not write the released flag. -/
theorem released_step (p : Syncpoint) (phase : Checking) :
    (phase.step p).1.released = p.released := by
  cases phase <;> rfl

/-- A check writes the armed flag with its swap only. -/
theorem armed_step (p : Syncpoint) {phase : Checking} (hswap : phase ≠ swapArmed) :
    (phase.step p).1.armed = p.armed := by
  cases phase <;> simp_all [step]

end Syncpoint.Checking

/-- A syncpoint, the side that arms it, and what is left of each thread's check. A thread whose
check is over may begin another. -/
structure Handshake where
  point : Syncpoint
  tester : Tester
  checks : Nat → Checking

/-- What can happen to a syncpoint. -/
inductive Act where
  /-- The test side begins to arm. -/
  | arm
  /-- The test side begins to wait for an arrival. -/
  | pause
  /-- The test side begins to resume its waiter. -/
  | resume
  /-- The test side makes the next access of its call. -/
  | test
  /-- A thread begins a check. -/
  | call (thread : Nat)
  /-- A thread makes the next access of its check. -/
  | check (thread : Nat)
deriving DecidableEq, Repr

namespace Handshake

/-- A syncpoint that nobody has used yet. -/
def initial : Handshake := ⟨.idle, .free, fun _ => .passed⟩

/-- What comes of an act. What cannot happen yet changes nothing: the test side arms without a
waiter, and waits and resumes with one. -/
def step (s : Handshake) : Act → Handshake
  | .arm => if s.tester = .free then { s with tester := .arming .clearArrived } else s
  | .pause => if s.tester = .holding then { s with tester := .pausing .poll } else s
  | .resume => if s.tester = .holding then { s with tester := .resuming .clearArmed } else s
  | .test =>
    let (point, tester) := s.tester.step s.point
    { s with point, tester }
  | .call thread =>
    if s.checks thread = .passed then
      { s with checks := Function.update s.checks thread .swapArmed }
    else s
  | .check thread =>
    let (point, phase) := (s.checks thread).step s.point
    { s with point, checks := Function.update s.checks thread phase }

/-- A run of a syncpoint that nobody has used before: one act after another, in any order
whatever. -/
structure Run where
  state : Nat → Handshake
  act : Nat → Act
  begins : state 0 = .initial
  next : ∀ n, state (n + 1) = (state n).step (act n)

/-- What becomes of a syncpoint through the first acts of a schedule. -/
def after (act : Nat → Act) : Nat → Handshake
  | 0 => initial
  | n + 1 => (after act n).step (act n)

/-- The run through a schedule. -/
def Run.along (act : Nat → Act) : Run where
  state := after act
  act
  begins := rfl
  next _ := rfl

/-! ## Flags -/

/-- What no step before this one did, and this one does not do, no step so far has done. -/
private theorem none_before_succ {p : Nat → Prop} {c n : Nat}
    (hnone : ∀ j, c < j → j < n → ¬ p j) (hlast : ¬ p n) : ∀ j, c < j → j < n + 1 → ¬ p j := by
  intro j hcj hjn
  rcases Nat.lt_succ_iff_lt_or_eq.mp hjn with hlt | rfl
  · exact hnone j hcj hlt
  · exact hlast

/-- A bit that changes from step to step only where it is written: some steps raise it, and others
lower it. -/
structure Written (up raises lowers : Nat → Prop) : Prop where
  raised : ∀ n, raises n → up (n + 1)
  lowered : ∀ n, lowers n → ¬ up (n + 1)
  kept : ∀ n, ¬ raises n → ¬ lowers n → (up (n + 1) ↔ up n)

namespace Written

variable {up raises lowers : Nat → Prop} {m n : Nat}

/-- That a bit is down is written where the bit is, the other way round. -/
theorem down (h : Written up raises lowers) : Written (fun n => ¬ up n) lowers raises where
  raised := h.lowered
  lowered n hraise hdown := hdown (h.raised n hraise)
  kept n hlower hraise := not_congr (h.kept n hraise hlower)

/-- A bit that was up is up later, unless it was lowered in between and not raised again. -/
theorem up_iff (h : Written up raises lowers) (hmn : m ≤ n) (hup : up m) :
    up n ↔ ¬ ∃ c, m ≤ c ∧ c < n ∧ lowers c ∧ ∀ j, c < j → j < n → ¬ raises j := by
  induction n, hmn using Nat.le_induction with
  | base => exact iff_of_true hup fun ⟨c, hmc, hcm, _⟩ => by omega
  | succ n hmn ih =>
    by_cases hraise : raises n
    · -- raised by this step, whatever was before
      refine iff_of_true (h.raised n hraise) fun ⟨c, _, hcn, hlower, hnone⟩ => ?_
      by_cases hc : c = n
      · subst hc
        exact h.lowered c hlower (h.raised c hraise)
      · exact hnone n (by omega) (by omega) hraise
    · by_cases hlower : lowers n
      · -- lowered by this step, and there is no step left to raise it again
        refine iff_of_false (h.lowered n hlower) (not_not_intro ?_)
        exact ⟨n, hmn, by omega, hlower, by omega⟩
      · -- not written, so that the step adds nothing to what was lowered before
        rw [h.kept n hraise hlower, ih]
        refine not_congr ⟨?_, ?_⟩
        · rintro ⟨c, hmc, hcn, hc, hnone⟩
          exact ⟨c, hmc, by omega, hc, none_before_succ hnone hraise⟩
        · rintro ⟨c, hmc, hcn, hc, hnone⟩
          have hne : c ≠ n := fun hcn => hlower (hcn ▸ hc)
          exact ⟨c, hmc, by omega, hc, fun j hcj hjn => hnone j hcj (by omega)⟩

/-- A bit that was up and is never lowered stays up. -/
theorem stays_up (h : Written up raises lowers) (hmn : m ≤ n) (hup : up m)
    (hnone : ∀ j, m ≤ j → j < n → ¬ lowers j) : up n :=
  (h.up_iff hmn hup).mpr fun ⟨c, hmc, hcn, hc, _⟩ => hnone c hmc hcn hc

/-- A bit that is up and was down at first was raised, at some step last. -/
theorem exists_raise (h : Written up raises lowers) (hfirst : ¬ up 0) (hup : up n) :
    ∃ a < n, raises a ∧ ∀ j, a < j → j < n → ¬ raises j := by
  induction n with
  | zero => exact absurd hup hfirst
  | succ n ih =>
    by_cases hraise : raises n
    · exact ⟨n, by omega, hraise, by omega⟩
    · have hlower : ¬ lowers n := fun hlower => h.lowered n hlower hup
      obtain ⟨a, han, ha, hlast⟩ := ih ((h.kept n hraise hlower).mp hup)
      exact ⟨a, by omega, ha, none_before_succ hlast hraise⟩

end Written

/-! ## Acts -/

/-- An act that is no access leaves the flags alone. -/
theorem point_step {s : Handshake} {e : Act} (htest : e ≠ .test) (hcheck : ∀ t, e ≠ .check t) :
    (s.step e).point = s.point := by
  cases e with
  | arm | pause | resume | call =>
    simp only [step]
    split <;> rfl
  | test => exact absurd rfl htest
  | check t => exact absurd rfl (hcheck t)

/-- Only accesses of its own thread move a check, and only its swap can stop it. -/
theorem swap_of_stopped {s : Handshake} {e : Act} {t : Nat}
    (hbefore : (s.checks t).isStopped = false) (hafter : ((s.step e).checks t).isStopped = true) :
    e = .check t ∧ s.checks t = .swapArmed ∧ s.point.armed = true := by
  cases e with
  | arm | pause | resume =>
    simp only [step] at hafter
    split at hafter <;> simp_all
  | test => simp_all [step]
  -- a check alone can be stopped, and only its swap stops it
  | call u =>
    simp only [step] at hafter
    split at hafter
    next hpassed =>
      by_cases hut : t = u
      · subst hut
        simp [Checking.isStopped] at hafter
      · simp_all
    next => simp_all
  | check u =>
    by_cases hut : t = u
    · subst hut
      cases hc : s.checks t <;> simp_all [step, Checking.step, Checking.isStopped]
      cases harmed : s.point.armed <;> simp_all
    · simp_all [step]

/-- The test side begins to hold back when it lowers the released flag, and raises it only when it
holds back no longer. -/
theorem holdsBack_step {s : Handshake} {e : Act}
    (hs : s.tester.holdsBack = true → s.point.released = false)
    (h : (s.step e).tester.holdsBack = true) : (s.step e).point.released = false := by
  cases e with
  | test =>
    simp only [step] at h ⊢
    -- the tester lowers the flag before it is where it holds back
    cases hw : s.tester with
    | free | holding => simp_all [Tester.step, Tester.holdsBack]
    | arming left => cases left <;> simp_all [Tester.step, Arming.step, Tester.holdsBack]
    | pausing left => cases left <;> simp_all [Tester.step, Pausing.step, Tester.holdsBack]
    | resuming left => cases left <;> simp_all [Tester.step, Resuming.step, Tester.holdsBack]
  | check t => exact (Checking.released_step _ _).trans (hs h)
  | arm | pause | resume | call =>
    rw [point_step (by simp) (by simp)]
    simp only [step] at h
    split at h <;> simp_all [Tester.holdsBack]

/-! ## Runs -/

namespace Run

variable {r : Run} {a s s' d b n t t' : Nat}

/-- At step `n` the test side makes an access of its call. -/
def Tests (r : Run) (n : Nat) (w : Tester) : Prop :=
  r.act n = .test ∧ (r.state n).tester = w

/-- At step `n` a thread makes an access of its check. -/
def Checks (r : Run) (n t : Nat) (phase : Checking) : Prop :=
  r.act n = .check t ∧ (r.state n).checks t = phase

instance (r : Run) (n : Nat) (w : Tester) : Decidable (r.Tests n w) :=
  inferInstanceAs (Decidable (_ ∧ _))

instance (r : Run) (n t : Nat) (phase : Checking) : Decidable (r.Checks n t phase) :=
  inferInstanceAs (Decidable (_ ∧ _))

/-- At step `s` a check of thread `t` takes the arming of step `a`: its swap finds the armed flag
up, and no other arming has raised it since. -/
structure Takes (r : Run) (a s t : Nat) : Prop where
  arms : r.Tests a (.arming .raiseArmed)
  swaps : r.Checks s t .swapArmed
  armed : (r.state s).point.armed = true
  later : a < s
  last : ∀ j, a < j → j < s → ¬ r.Tests j (.arming .raiseArmed)

/-- The waiter that the arming of step `a` has given is resumed: the armed flag is lowered at step
`d`, and the released flag raised at step `b`. -/
structure Resumes (r : Run) (a d b : Nat) : Prop where
  arms : r.Tests a (.arming .raiseArmed)
  disarms : r.Tests d (.resuming .clearArmed)
  releases : r.Tests b (.resuming .raiseReleased)
  disarms_later : a < d
  releases_later : d < b
  own : ∀ j, a < j → j < b → ¬ r.Tests j (.arming .raiseArmed)

/-- By step `n` the release of step `b` was taken back: a later arming has lowered the released
flag, and its waiter has not been resumed so far. -/
def TakenBack (r : Run) (b n : Nat) : Prop :=
  ∃ c, b < c ∧ c < n ∧ r.Tests c (.arming .clearReleased) ∧
    ∀ j, c < j → j < n → ¬ r.Tests j (.resuming .raiseReleased)

/-- Whether something holds at every step between two can be decided. -/
local instance (m n : Nat) (p : Nat → Prop) [DecidablePred p] :
    Decidable (∀ j, m < j → j < n → p j) :=
  Nat.decidableLoHi (m + 1) n p

instance (r : Run) (b n : Nat) : Decidable (r.TakenBack b n) :=
  decidable_of_iff (∃ c, c < n ∧ b < c ∧ r.Tests c (.arming .clearReleased) ∧
    ∀ j, c < j → j < n → ¬ r.Tests j (.resuming .raiseReleased))
    (exists_congr fun _ => and_left_comm)

/-- The released flag is raised by resumptions and lowered by armings. -/
theorem released_written (r : Run) : Written (fun n => (r.state n).point.released = true)
    (r.Tests · (.resuming .raiseReleased)) (r.Tests · (.arming .clearReleased)) where
  raised n h := by
    rw [r.next, h.1]
    simp [Handshake.step, h.2, Tester.step, Resuming.step]
  lowered n h := by
    rw [r.next, h.1]
    simp [Handshake.step, h.2, Tester.step, Arming.step]
  kept n hraise hlower := by
    rw [r.next]
    cases he : r.act n with
    | test =>
      exact Bool.eq_iff_iff.mp
        (Tester.released_step _ (fun h => hraise ⟨he, h⟩) fun h => hlower ⟨he, h⟩)
    | check t => exact Bool.eq_iff_iff.mp (Checking.released_step _ _)
    | _ => rw [point_step] <;> simp

/-- The armed flag is raised by armings, and lowered by the swaps of checks and by resumptions. -/
theorem armed_written (r : Run) : Written (fun n => (r.state n).point.armed = true)
    (r.Tests · (.arming .raiseArmed))
    (fun n => r.Tests n (.resuming .clearArmed) ∨ ∃ t, r.Checks n t .swapArmed) where
  raised n h := by
    rw [r.next, h.1]
    simp [Handshake.step, h.2, Tester.step, Arming.step]
  lowered n h := by
    rcases h with h | ⟨t, h⟩
    · rw [r.next, h.1]
      simp [Handshake.step, h.2, Tester.step, Resuming.step]
    · rw [r.next, h.1]
      simp [Handshake.step, h.2, Checking.step]
  kept n hraise hlower := by
    rw [r.next]
    cases he : r.act n with
    | test =>
      exact Bool.eq_iff_iff.mp
        (Tester.armed_step _ (fun h => hraise ⟨he, h⟩) fun h => hlower (.inl ⟨he, h⟩))
    | check t =>
      exact Bool.eq_iff_iff.mp (Checking.armed_step _ fun h => hlower (.inr ⟨t, he, h⟩))
    | _ => rw [point_step] <;> simp

/-! ## Who takes an arming -/

/-- Between an arming and the check that takes it nothing lowers the armed flag. -/
theorem Takes.unlowered (h : r.Takes a s t) {x : Nat} (hax : a < x) (hxs : x < s) :
    ¬ (r.Tests x (.resuming .clearArmed) ∨ ∃ t, r.Checks x t .swapArmed) := by
  intro hlower
  have hdown := r.armed_written.lowered x hlower
  -- only an arming could raise the flag again for the swap to find
  exact r.armed_written.down.stays_up hxs hdown (fun j hxj hjs => h.last j (by omega) hjs) h.armed

/-- At most one check takes an arming. -/
theorem takes_unique (h : r.Takes a s t) (h' : r.Takes a s' t') : s = s' ∧ t = t' := by
  have not_lt {s s' t t' : Nat} (h : r.Takes a s t) (h' : r.Takes a s' t') : ¬ s < s' :=
    fun hlt => h'.unlowered h.later hlt (.inr ⟨t, h.swaps⟩)
  have hs : s = s' := Nat.le_antisymm (Nat.not_lt.mp (not_lt h' h)) (Nat.not_lt.mp (not_lt h h'))
  subst hs
  exact ⟨rfl, by simpa using h.swaps.1.symm.trans h'.swaps.1⟩

/-- A check that takes an arming does so before the waiter of the arming is resumed. -/
theorem takes_before_disarm (h : r.Resumes a d b) (htakes : r.Takes a s t) : s < d := by
  rcases Nat.lt_trichotomy s d with hlt | rfl | hgt
  · exact hlt
  · -- one step is an access of one side only
    exact nomatch htakes.swaps.1.symm.trans h.disarms.1
  · exact absurd (.inl h.disarms) (htakes.unlowered h.disarms_later hgt)

/-- A check that is stopped has taken an arming, and been stopped since. -/
theorem exists_takes (r : Run) (hstopped : ((r.state n).checks t).isStopped = true) :
    ∃ a s, s < n ∧ r.Takes a s t ∧
      ∀ j, s < j → j ≤ n → ((r.state j).checks t).isStopped = true := by
  -- the induction is on the steps: the check was stopped before, or stops with this one
  induction n with
  | zero => simp [r.begins, initial, Checking.isStopped] at hstopped
  | succ n ih =>
    cases hbefore : ((r.state n).checks t).isStopped with
    | true =>
      obtain ⟨a, s, hsn, htakes, hsince⟩ := ih hbefore
      refine ⟨a, s, by omega, htakes, fun j hsj hjn => ?_⟩
      rcases Nat.le_succ_iff.mp hjn with hle | rfl
      · exact hsince j hsj hle
      · exact hstopped
    | false =>
      -- the swap is this step, and what it finds was put there by the last arming
      rw [r.next] at hstopped
      obtain ⟨he, hswap, harmed⟩ := swap_of_stopped hbefore hstopped
      obtain ⟨a, han, ha, hlast⟩ :=
        r.armed_written.exists_raise (by simp [r.begins, initial, Syncpoint.idle]) harmed
      refine ⟨a, n, by omega, ⟨ha, ⟨he, hswap⟩, harmed, han, hlast⟩, fun j hnj hjn => ?_⟩
      obtain rfl : j = n + 1 := by omega
      rw [r.next]
      exact hstopped

/-! ## What lets a check go -/

/-- As long as the test side holds back, the released flag is down. -/
theorem released_of_holdsBack (r : Run) (n : Nat) (h : (r.state n).tester.holdsBack = true) :
    (r.state n).point.released = false := by
  induction n with
  | zero => simp [r.begins, initial, Syncpoint.idle]
  | succ n ih =>
    rw [r.next] at h ⊢
    exact holdsBack_step ih h

/-- After an arming the released flag stays down until a waiter is resumed. -/
theorem released_of_unresumed (ha : r.Tests a (.arming .raiseArmed)) (han : a < n)
    (hnone : ∀ j, a < j → j < n → ¬ r.Tests j (.resuming .raiseReleased)) :
    (r.state n).point.released = false := by
  -- the arming has lowered the flag on its way here, and this store leaves it alone
  have hbefore := r.released_of_holdsBack a (by rw [ha.2]; rfl)
  have hafter : (r.state (a + 1)).point.released = false := by
    rw [r.next, ha.1, ← hbefore]
    simp [Handshake.step, ha.2, Tester.step, Arming.step]
  have hdown := r.released_written.down.stays_up han (Bool.eq_false_iff.mp hafter)
    fun j haj hjn => hnone j haj hjn
  exact Bool.eq_false_iff.mpr hdown

/-- After a resumption the released flag is up, unless the release was taken back. -/
theorem released_iff (h : r.Resumes a d b) (hbn : b < n) :
    (r.state n).point.released = true ↔ ¬ r.TakenBack b n :=
  r.released_written.up_iff hbn (r.released_written.raised b h.releases)

/-- A poll lets its check go exactly if it finds the released flag up. -/
theorem checks_of_poll (h : r.Checks n t .poll) :
    (r.state (n + 1)).checks t = if (r.state n).point.released then .passed else .poll := by
  rw [r.next, h.1]
  simp [Handshake.step, h.2, Checking.step]

/-- A check that is stopped was stopped by an arming that it has taken, and no arming stops two. It
stays where it is at least until a waiter is resumed. Once the resumption of a waiter has begun, no
check takes the arming of that waiter any more; once it is over, the next poll of a check that is
stopped, by that arming or by another, lets it go, exactly unless the release was taken back by a
later arming whose waiter has not been resumed. -/
theorem released_unless_rearmed (r : Run) :
    (∀ {n t : Nat}, ((r.state n).checks t).isStopped = true → ∃ a s, s < n ∧ r.Takes a s t ∧
      ∀ j, s < j → j ≤ n → ((r.state j).checks t).isStopped = true) ∧
    (∀ {a s s' t t' : Nat}, r.Takes a s t → r.Takes a s' t' → s = s' ∧ t = t') ∧
    (∀ {a s n t : Nat}, r.Takes a s t → s < n →
      (∀ j, a < j → j < n → ¬ r.Tests j (.resuming .raiseReleased)) → r.Checks n t .poll →
      (r.state (n + 1)).checks t = .poll) ∧
    ∀ {a d b : Nat}, r.Resumes a d b →
      (∀ {s t : Nat}, r.Takes a s t → s < d) ∧
      ∀ {n t : Nat}, b < n → r.Checks n t .poll →
        ((r.state n).point.released = true ↔ ¬ r.TakenBack b n) ∧
        (r.state (n + 1)).checks t = if (r.state n).point.released then .passed else .poll := by
  refine ⟨r.exists_takes, takes_unique, fun {a s n t} htakes hsn hnone hpoll => ?_,
    fun {a d b} hresumes => ⟨takes_before_disarm hresumes, fun {n t} hbn hpoll => ?_⟩⟩
  · -- an earlier release is of no use, as the arming has lowered the flag since
    have hlater := htakes.later
    rw [checks_of_poll hpoll, released_of_unresumed htakes.arms (by omega) hnone]
    rfl
  · exact ⟨released_iff hresumes hbn, checks_of_poll hpoll⟩

/-- A check takes an arming and is stopped; the test side waits for it, resumes its waiter, and arms
again before the check polls. -/
private def rearming : List Act :=
  [.arm, .test, .test, .test, .call 0, .check 0, .check 0, .check 0, .pause, .test, .resume, .test,
    .test, .arm, .test, .test, .test]

/-- After the second arming the check polls, and the second waiter is resumed. -/
private def resumedTwice : Run :=
  .along fun n => (rearming ++ [Act.check 0, .resume, .test, .test]).getD n (.check 0)

/-- A check that polls before the first resumption stays. It stays when it polls after the second
arming, which has taken the release back, and goes when it polls after the second resumption. -/
theorem rearmed_check_goes_at_last :
    ∃ (r : Run) (a s d b : Nat), r.Takes a s 0 ∧ r.Resumes a d b ∧ s < d ∧
      (∃ k, r.Checks k 0 .poll ∧ k < b ∧ (r.state (k + 1)).checks 0 = .poll) ∧
      (∃ k, r.Checks k 0 .poll ∧ b < k ∧ r.TakenBack b k ∧ (r.state (k + 1)).checks 0 = .poll) ∧
      ∃ k, r.Checks k 0 .poll ∧ b < k ∧ ¬ r.TakenBack b k ∧
        (r.state (k + 1)).checks 0 = .passed := by
  obtain ⟨-, -, hstays, hgoes⟩ := released_unless_rearmed resumedTwice
  have htakes : resumedTwice.Takes 3 5 0 :=
    ⟨⟨rfl, rfl⟩, ⟨rfl, rfl⟩, rfl, by decide, by decide⟩
  have hresumes : resumedTwice.Resumes 3 11 12 :=
    ⟨⟨rfl, rfl⟩, ⟨rfl, rfl⟩, ⟨rfl, rfl⟩, by decide, by decide, by decide⟩
  obtain ⟨hfirst, hpolls⟩ := hgoes hresumes
  -- before the first resumption
  have hheld : (resumedTwice.state 8).checks 0 = .poll :=
    hstays htakes (by decide) (by decide) ⟨rfl, rfl⟩
  -- between the second arming and the second resumption
  have hback : resumedTwice.TakenBack 12 17 := by decide
  have hbetween : resumedTwice.Checks 17 0 .poll := ⟨rfl, rfl⟩
  obtain ⟨hflag, hstill⟩ := hpolls (by decide) hbetween
  rw [Bool.eq_false_iff.mpr fun hup => hflag.mp hup hback] at hstill
  -- after the second resumption
  have hkept : ¬ resumedTwice.TakenBack 12 21 := by decide
  have hlast : resumedTwice.Checks 21 0 .poll := ⟨rfl, rfl⟩
  obtain ⟨hflag, hgone⟩ := hpolls (by decide) hlast
  rw [hflag.mpr hkept] at hgone
  exact ⟨resumedTwice, 3, 5, 11, 12, htakes, hresumes, hfirst htakes,
    ⟨7, ⟨rfl, rfl⟩, by decide, hheld⟩, ⟨17, hbetween, by decide, hback, hstill⟩,
    ⟨21, hlast, by decide, hkept, hgone⟩⟩

/-! ## A check that is not released -/

/-- The test side waits for an arrival and thread `t` for its release, and neither has come. -/
structure Deadlocked (s : Handshake) (t : Nat) : Prop where
  waits : s.tester = .pausing .poll
  polls : s.checks t = .poll
  arrived : s.point.arrived = false
  released : s.point.released = false

/-- Where both wait, both go on waiting as long as no other thread checks the syncpoint. -/
theorem Deadlocked.step {s : Handshake} {e : Act} (h : Deadlocked s t)
    (he : e = .test ∨ e = .check t) : Deadlocked (s.step e) t := by
  obtain ⟨hwaits, hpolls, harrived, hreleased⟩ := h
  rcases he with rfl | rfl
  · constructor <;> simp [Handshake.step, Tester.step, Pausing.step, *]
  · constructor <;> simp [Handshake.step, Checking.step, *]

/-- The test side waits for an arrival with the second waiter, and the thread polls, in turns. -/
private def waitedTwice : Run :=
  .along fun n => (rearming ++ [Act.pause]).getD n (if n % 2 = 0 then .test else .check 0)

/-- A check that an arming has stopped goes on polling for ever after the waiter of that arming was
resumed, and finds the released flag down each time: the test side, which had waited for the check
to arrive, has armed again before the next poll and now waits for an arrival for ever. -/
theorem check_stopped_after_release :
    ∃ (r : Run) (a s d b : Nat), r.Takes a s 0 ∧ r.Resumes a d b ∧ s < d ∧
      (∀ n, s < n → ((r.state n).checks 0).isStopped = true) ∧
      ∀ m, (∃ n, m ≤ n ∧ b < n ∧ r.Checks n 0 .poll ∧ (r.state n).point.released = false) ∧
        ∃ n, m ≤ n ∧ b < n ∧ r.Tests n (.pausing .poll) ∧ (r.state n).point.arrived = false := by
  have hacts (n : Nat) (hn : 18 ≤ n) :
      waitedTwice.act n = if n % 2 = 0 then .test else .check 0 :=
    List.getD_eq_default _ _ (by simpa [rearming] using hn)
  -- from here on the two sides wait for each other
  have hdead (n : Nat) (hn : 18 ≤ n) : Deadlocked (waitedTwice.state n) 0 := by
    induction n, hn using Nat.le_induction with
    | base => exact ⟨rfl, rfl, rfl, rfl⟩
    | succ n hn ih =>
      rw [waitedTwice.next, hacts n hn]
      exact ih.step (by split <;> simp)
  have htakes : waitedTwice.Takes 3 5 0 :=
    ⟨⟨rfl, rfl⟩, ⟨rfl, rfl⟩, rfl, by decide, by decide⟩
  have hresumes : waitedTwice.Resumes 3 11 12 :=
    ⟨⟨rfl, rfl⟩, ⟨rfl, rfl⟩, ⟨rfl, rfl⟩, by decide, by decide, by decide⟩
  refine ⟨waitedTwice, 3, 5, 11, 12, htakes, hresumes, by decide, fun n hn => ?_,
    fun m => ⟨?_, ?_⟩⟩
  · rcases Nat.lt_or_ge n 18 with hlt | hge
    · have hstopped : ∀ n, 5 < n → n < 18 → ((waitedTwice.state n).checks 0).isStopped = true := by
        decide
      exact hstopped n hn hlt
    · rw [(hdead n hge).polls]
      rfl
  · -- an odd step
    have hn : 18 ≤ 2 * (m + 9) + 1 := by omega
    refine ⟨2 * (m + 9) + 1, by omega, by omega, ⟨?_, (hdead _ hn).polls⟩, (hdead _ hn).released⟩
    rw [hacts _ hn, if_neg (by omega)]
  · -- an even step
    have hn : 18 ≤ 2 * (m + 9) := by omega
    refine ⟨2 * (m + 9), by omega, by omega, ⟨?_, (hdead _ hn).waits⟩, (hdead _ hn).arrived⟩
    rw [hacts _ hn, if_pos (by omega)]

end Run

end Handshake

end Safepoint
