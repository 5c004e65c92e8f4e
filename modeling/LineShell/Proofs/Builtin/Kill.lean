/-
  LineShell.Proofs.Builtin.Kill

  Whom a signal can be sent to.

  The first argument must denote a number; all others are passed over.  Zero and the
  negative numbers, by which the system would take a whole group of processes for the
  target, are refused before the system is asked, whatever they are written like, and
  so are the numbers that no process can have.  The system is asked once for any
  other, and what it refuses is a failure of the command (`runKill_spec`).
-/

import LineShell.Proofs.Builtin.Reported
import LineShell.Proofs.Text.Numeral

namespace LineShell

/-- Whether the event is a signal to a process. -/
def Event.isKill : Event → Bool
  | .kill .. => true
  | _ => false

namespace Builtin

variable {σ : Type}

/-- What the command comes to that asks a process to end. -/
inductive Killed (host : Host) (s : σ) : List String → Result σ Unit → Prop
  | missing : Killed host s [] ⟨.error (.shell .argument "kill: no pid"), s, []⟩
  /-- The argument denotes no number, or one that stands for a group of processes. -/
  | invalid {text : String} {rest : List String} (h : ∀ pid, Text.Denotes text pid → pid ≤ 0) :
      Killed host s (text :: rest)
        ⟨.error (.shell .argument s!"kill: invalid pid {Text.quoted text}"), s, []⟩
  | tooLarge {text : String} {rest : List String} {pid : Int} {message : String}
      (h : Text.Denotes text pid) (hpid : 2147483647 < pid) :
      Killed host s (text :: rest) ⟨.error (.fault .overflow message), s, []⟩
  | refused {text : String} {rest : List String} {pid : Int} {f : Failure}
      (h : Text.Denotes text pid) (hpid : 1 ≤ pid ∧ pid ≤ 2147483647)
      (hf : (host.targets pid).getD (some .noSuchProcess) = some f)
      (hclaimed : f.isSystem = true →
        ∃ reason : String, killFailure pid f = .shell .process s!"kill: ({pid}) {reason}") :
      Killed host s (text :: rest) ⟨.error (killFailure pid f), s, [.kill pid 15 false]⟩
  | sent {text : String} {rest : List String} {pid : Int}
      (h : Text.Denotes text pid) (hpid : 1 ≤ pid ∧ pid ≤ 2147483647)
      (hsent : (host.targets pid).getD (some .noSuchProcess) = none) :
      Killed host s (text :: rest)
        ⟨.ok (), s, [.kill pid 15 true, .log .kill s!"sent SIGTERM to {pid}"]⟩

theorem runKill_spec (args : List String) (host : Host) (m : Machine) :
    Killed host m args (runKill args host m) := by
  cases args with
  | nil => exact .missing
  | cons text rest =>
    by_cases hpos : ∃ pid, Text.integer? text = some pid ∧ 0 < pid
    · obtain ⟨pid, hinteger, hpos⟩ := hpos
      have hdenotes := Text.integer?_eq_some_iff.mp hinteger
      have hrun : runKill (text :: rest) host m =
          (do (Machine.kill pid 15).mapFailure (killFailure pid)
              .log .kill s!"sent SIGTERM to {pid}" : Action Machine Unit) host m := by
        rw [runKill, killTarget, hinteger]
        simp only [if_neg (show ¬pid ≤ 0 by omega)]
        rfl
      rw [hrun, Action.bind_apply, Action.mapFailure_apply, Machine.kill_apply]
      by_cases hmax : pid ≤ 2147483647
      · have hsmall : Machine.pidOverflow? pid = none := if_pos hmax
        rw [hsmall]
        cases htarget : (host.targets pid).getD (some .noSuchProcess) with
        | some f =>
          exact .refused hdenotes ⟨hpos, hmax⟩ htarget fun h => killFailure_of_isSystem h pid
        | none => exact .sent hdenotes ⟨hpos, hmax⟩ htarget
      · obtain ⟨message, hlarge⟩ : ∃ message,
            Machine.pidOverflow? pid = some (.fault .overflow message) := by
          rw [Machine.pidOverflow?, if_neg (show ¬pid ≤ Machine.maxPid from hmax)]
          split <;> exact ⟨_, rfl⟩
        rw [hlarge]
        exact .tooLarge hdenotes (by omega)
    · have htarget : killTarget (text :: rest) = .error (invalidPid text) := by
        rw [killTarget]
        split
        · rfl
        · next pid hinteger => exact if_pos (not_lt.mp fun h => hpos ⟨pid, hinteger, h⟩)
      have hrun : runKill (text :: rest) host m = ⟨.error (invalidPid text), m, []⟩ := by
        rw [runKill, htarget]
        rfl
      rw [hrun]
      exact .invalid fun pid hpid =>
        not_lt.mp fun h => hpos ⟨pid, Text.integer?_eq_some_iff.mpr hpid, h⟩

end Builtin

end LineShell
