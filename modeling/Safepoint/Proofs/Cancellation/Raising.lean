import Safepoint.Proofs.System.Progress
import Safepoint.Proofs.System.Safepoint

/-!
# How the handler raises a cancellation

While a cancellation is pending, its message stored and its flag raised, a handler that has just
been entered goes straight on to raise it: it sees the flag, finds the message, and returns with an
error before it touches the hook or the queue. `Machine.Raising m below left` says that a machine is
on that way, in the handler of a safepoint whose own work goes on with the frames `below`, and that
at most `left` of its own moves remain until the message has been read.

## Key results

- `Machine.raising_step`: each move of the machine brings the error nearer
- `Machine.Raising.congr`: what leaves the frames and what is done next alone does not put it off
-/

namespace Safepoint

variable {κ τ ρ : Type}

/-- A cancellation is pending, and its flag tells of it. -/
def Mailbox.Pending (b : Mailbox κ) (message : Message) : Prop :=
  b.cancelFlag = true ∧ b.cancelMessage = some message

namespace Machine

/-- A machine is in its handler, on the way to look at the message of a cancellation, with so many
moves left at most. -/
inductive Raising (m : Machine κ τ ρ) (below : List (Frame κ τ ρ)) : Nat → Prop where
  | entering {info} (control : m.control = .handle .enter info)
      (frames : m.frames = .dispatch :: below) : Raising m below 6
  | checking {info} (control : m.control = .check .hookBeforeCancelCheck (.handle .readFlag info))
      (frames : m.frames = .dispatch :: below) : Raising m below 5
  | arriving {info} (control : m.control = .arrive .hookBeforeCancelCheck (.handle .readFlag info))
      (frames : m.frames = .dispatch :: below) : Raising m below 4
  | held {info} (control : m.control = .paused .hookBeforeCancelCheck (.handle .readFlag info))
      (frames : m.frames = .dispatch :: below) : Raising m below 3
  | looking {info} (control : m.control = .handle .readFlag info)
      (frames : m.frames = .dispatch :: below) : Raising m below 2
  | reading {info} (control : m.control = .handle .readMessage info)
      (frames : m.frames = .dispatch :: below) : Raising m below 1

variable {m : Machine κ τ ρ} {below : List (Frame κ τ ρ)} {left : Nat}

/-- The handler has read the message, and is about to return with it. -/
structure Raised (m : Machine κ τ ρ) (below : List (Frame κ τ ρ)) (message : Message) : Prop where
  control : m.control = .deliver (.error (.cancelled message))
  frames : m.frames = .dispatch :: below

/-- A handler that was just entered is six moves at most from the message. -/
theorem raising_entering (m : Machine κ τ ρ) (event : HookEvent) :
    (m.entering event).Raising m.frames 6 :=
  .entering rfl rfl

/-- How near the handler is to the message is told by the control and the frames. -/
theorem Raising.congr {m' : Machine κ τ ρ} (h : m.Raising below left)
    (hcontrol : m'.control = m.control) (hframes : m'.frames = m.frames) :
    m'.Raising below left := by
  cases h with
  | entering hc hf => exact .entering (hcontrol.trans hc) (hframes.trans hf)
  | checking hc hf => exact .checking (hcontrol.trans hc) (hframes.trans hf)
  | arriving hc hf => exact .arriving (hcontrol.trans hc) (hframes.trans hf)
  | held hc hf => exact .held (hcontrol.trans hc) (hframes.trans hf)
  | looking hc hf => exact .looking (hcontrol.trans hc) (hframes.trans hf)
  | reading hc hf => exact .reading (hcontrol.trans hc) (hframes.trans hf)

/-- On its way to the message the handler is on top of the frames that it found. -/
theorem Raising.frames (h : m.Raising below left) : m.frames = .dispatch :: below := by
  cases h with
  | entering _ hf | checking _ hf | arriving _ hf | held _ hf | looking _ hf | reading _ hf =>
    exact hf

/-- A machine on its way is at work, and waits for nobody outside. -/
theorem Raising.at_work (h : m.Raising below left) :
    m.control.isFinished = false ∧ ∀ x given held next, m.control ≠ .waiting x given held next := by
  cases h with
  | entering hc | checking hc | arriving hc | held hc | looking hc | reading hc =>
    rw [hc]
    exact ⟨rfl, by simp⟩

/-- On its way to the message, the handler touches nothing that a script or a host can tell: neither
the interpreter's own state, nor the hook, the queue or the cancellation. -/
structure Undisturbed (m m' : Machine κ τ ρ) : Prop where
  interp : m'.interp = m.interp
  slot : m'.mailbox.slot = m.mailbox.slot
  queue : m'.mailbox.queue = m.mailbox.queue
  flag : m'.mailbox.cancelFlag = m.mailbox.cancelFlag
  message : m'.mailbox.cancelMessage = m.mailbox.cancelMessage

/-- While a cancellation is pending, each move of a handler on its way brings it nearer to the
message, and the last one raises it. -/
theorem raising_step (code : Meaning κ τ ρ) {message : Message} (h : m.Raising below left)
    (hpending : m.mailbox.Pending message) :
    Undisturbed m (m.step code) ∧
      ((∃ left', (m.step code).Raising below left' ∧ left' + (!m.isHeld).toNat ≤ left) ∨
        left = 1 ∧ (m.step code).Raised below message) := by
  obtain ⟨hflag, hmessage⟩ := hpending
  -- each stage is one move nearer to the message, and only the last one reads it
  cases h with
  | @entering info hc hf =>
    have hstep : m.step code = { m with mailbox := m.mailbox.countInvocation }.goto
        (.check .hookBeforeCancelCheck (.handle .readFlag info)) := by
      simp only [step, hc]
      rfl
    rw [hstep]
    exact ⟨⟨rfl, rfl, rfl, rfl, rfl⟩, .inl ⟨5, .checking rfl hf, by simp [isHeld, hc]⟩⟩
  | checking hc hf =>
    obtain ⟨points, control, hstep, rfl⟩ := step_of_check code hc
    rw [hstep]
    refine ⟨⟨rfl, rfl, rfl, rfl, rfl⟩, ?_⟩
    -- armed for a test, the syncpoint stops the thread
    split
    · exact .inl ⟨4, .arriving rfl hf, by simp [isHeld, hc]⟩
    · exact .inl ⟨2, .looking rfl hf, by simp [isHeld, hc]⟩
  | arriving hc hf =>
    obtain ⟨points, hstep⟩ := step_of_arrive code hc
    rw [hstep]
    exact ⟨⟨rfl, rfl, rfl, rfl, rfl⟩, .inl ⟨3, .held rfl hf, by simp [isHeld, hc]⟩⟩
  | held hc hf =>
    obtain ⟨points, control, hstep, rfl⟩ := step_of_paused code hc
    rw [hstep]
    refine ⟨⟨rfl, rfl, rfl, rfl, rfl⟩, ?_⟩
    -- a step at which the thread stays held is no move
    split
    next hreleased => exact .inl ⟨2, .looking rfl hf, by simp [isHeld, hc, hreleased]⟩
    next hreleased => exact .inl ⟨3, .held rfl hf, by simp [isHeld, hc, hreleased]⟩
  | @looking info hc hf =>
    have hstep : m.step code = m.goto (.handle .readMessage info) := by
      simp only [step, hc, handle, hflag, if_true]
    rw [hstep]
    exact ⟨⟨rfl, rfl, rfl, rfl, rfl⟩, .inl ⟨1, .reading rfl hf, by simp [isHeld, hc]⟩⟩
  | @reading info hc hf =>
    have hstep : m.step code =
        (m.note (.raisingCancellation info)).raise (.cancelled message) := by
      simp only [step, hc, handle, Mailbox.readMessage_of_some hmessage]
      rfl
    rw [hstep]
    exact ⟨⟨rfl, rfl, rfl, rfl, rfl⟩, .inr ⟨rfl, rfl, hf⟩⟩

end Machine

end Safepoint
