/-
  LineShell.Proofs.Redirect.Reported

  The failures of redirected commands.

  A file that the system does not open is a failure of the shell; from there on a
  redirected command fails as a process in the foreground does.  The one way
  around this would be a null character in the target or in a word.
-/

import LineShell.Proofs.Group.Reported
import LineShell.Proofs.Redirect.Inversion
import LineShell.Proofs.Text.Blank

namespace LineShell

theorem Machine.hasNull_of_isInfix {s t : String} (h : t.toList <:+: s.toList)
    (hs : hasNull s = false) : hasNull t = false := by
  rw [hasNull, List.contains_eq_mem, decide_eq_false_iff_not] at hs ⊢
  exact fun ht => hs (h.subset ht)

namespace Redirect

variable {setting : Setting} {host : Host} {m : Machine}

/-- A file is not opened because the host says so, or because there is none to be read. -/
theorem of_openFailure? {path : String} {mode : OpenMode} {f : Failure}
    (h : Machine.openFailure? host m path mode = some f) :
    host.openFailures path = some f ∨ f = .noSuchFile := by
  unfold Machine.openFailure? at h
  split at h
  · next f' hf' =>
    cases h
    exact .inl hf'
  · split at h
    · cases h
      exact .inr rfl
    · cases h

theorem isSystem_of_openFailure? (hopens : ∀ path f, host.openFailures path = some f →
    f.isSystem = true) {path : String} {mode : OpenMode} {f : Failure}
    (h : Machine.openFailure? host m path mode = some f) : f.isSystem = true := by
  rcases of_openFailure? h with hf | rfl
  · exact hopens path f hf
  · rfl

theorem run_reported (hsilent : setting.Silent)
    (hopens : ∀ path f, host.openFailures path = some f → f.isSystem = true) {source : String}
    {mode : OpenMode} {target : String} (hsource : Machine.hasNull source = false)
    (htarget : Machine.hasNull target = false) (hsound : m.Sound) {f : Failure}
    (hf : (run setting source mode target host m).outcome = .error f) : f.isReported = true := by
  have hspec := run_spec setting source mode target host m
  generalize run setting source mode target host m = r at hspec hf
  cases hspec with
  | unopened f' _ hfailure =>
    cases hf
    rcases hfailure with rfl | ⟨hnull, -⟩ | ⟨g, hg, rfl⟩
    · rfl
    · rw [htarget] at hnull
      cases hnull
    · exact Failure.isReported_of_isShell
        (Failure.isShell_claimedFor (isSystem_of_openFailure? hopens hg) .file target)
  | blank => cases hf
  | @program invocation _ _ hwords hr =>
    subst hr
    have hnull : (attach mode target invocation).argv.any Machine.hasNull = false := by
      rw [argv_attach, Invocation.argv_of_ofWords hwords, List.any_eq_false]
      intro word hword
      obtain ⟨cs, hcs, rfl⟩ := List.mem_map.mp hword
      have hinfix : (String.ofList cs).toList <:+: source.toList := by
        rw [String.toList_ofList]
        exact (Text.of_mem_wordsOf hcs).2.2
      simp [Machine.hasNull_of_isInfix hinfix hsource]
    exact Group.foreground_reported hsilent hnull (m := opened target m) hsound hf

theorem run_spends (setting : Setting) (source : String) (mode : OpenMode) (target : String) :
    (run setting source mode target).Keeps fun m _ m' => m.Spends m' := by
  refine run_keeps Machine.Spends.isPath ?_ ?_ ?_ ?_ fun _ _ => Group.foreground_spends setting _
  · exact fun _ _ => List.suffix_rfl
  · exact fun _ _ => List.suffix_rfl
  · exact fun _ _ => List.suffix_rfl
  · exact fun _ _ _ => List.suffix_rfl

end Redirect

end LineShell
