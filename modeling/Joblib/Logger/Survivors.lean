import Joblib.Logger.Rotation

/-! What the rotation leaves.

Each construction on an existing log empties `logfile.1` to `logfile.8` and gives `logfile.9` what stood
lowest. So from the second one on there is nothing but the last three logs: the latest, the one before it
in `logfile.1` and the one before that in `logfile.9`, however many sessions there were (`last_three`). -/
namespace Joblib.Logger

variable {T : Type} {ctime : T → String} {logfile : String} {fs t t' : FileSystem}

/-- No file of the rotation's. -/
def Elsewhere (logfile path : String) : Prop := path ≠ logfile ∧ ∀ i, 1 ≤ i → i ≤ 9 → path ≠ backup logfile i

/-- The latest two logs are in their places, and between `logfile.1` and `logfile.9` there is nothing. -/
structure Rotated (logfile : String) (logs : List String) (fs t : FileSystem) : Prop where
  latest : t logfile = logs[0]?
  first : t (backup logfile 1) = logs[1]?
  emptied : ∀ i, 2 ≤ i → i ≤ 8 → t (backup logfile i) = none
  other : ∀ path, Elsewhere logfile path → t path = fs path

/-! ### One session -/

/-- A session that finds no log. -/
theorem session_none {s : Session T} (h : t logfile = none) (hrun : session ctime logfile t s = some t') :
    t' logfile = some (s.log ctime) ∧ ∀ path, path ≠ logfile → t' path = t path := by
  rw [session_eq, openLog_of_none h] at hrun
  obtain rfl := Option.some.inj hrun
  refine ⟨by simp [FileSystem.write], fun path hpath => ?_⟩
  simp [FileSystem.write, Function.update_of_ne hpath]

/-- A session that finds one. -/
theorem session_some {s : Session T} {log : String} (h : t logfile = some log)
    (hrun : session ctime logfile t s = some t') :
    Rotated logfile [s.log ctime, log] t t' ∧ t' (backup logfile 9) = lowest logfile t 9 := by
  have hcarried := rotate_carried logfile t
  have hbackup : ∀ i, 2 ≤ i → t' (backup logfile i) = rotate logfile t (backup logfile i) := by
    intro i hi
    rw [session_eq] at hrun
    rw [← Option.some.inj hrun, FileSystem.write, Function.update_of_ne (backup_ne_logfile i)]
    exact openLog_backup h hi
  rw [session_eq] at hrun
  obtain rfl := Option.some.inj hrun
  refine ⟨⟨by simp [FileSystem.write], ?_, fun i h2 h8 => ?_, fun path hpath => ?_⟩, ?_⟩
  · rw [FileSystem.write, Function.update_of_ne (backup_ne_logfile 1)]
    exact openLog_first h
  · rw [hbackup i h2]
    exact hcarried.emptied i (by omega) h8
  · rw [FileSystem.write, Function.update_of_ne hpath.1, openLog_of_some h, FileSystem.write,
      Function.update_of_ne hpath.1, FileSystem.write, Function.update_of_ne (hpath.2 1 (by omega) (by omega))]
    exact hcarried.other path hpath.2
  · rw [hbackup 9 (by omega)]
    exact hcarried.top

/-! ### Runs -/

/-- What stands lowest is `logfile.1`, if it is there. -/
theorem lowest_first {log : String} (h : t (backup logfile 1) = some log) : lowest logfile t 9 = some log := by
  unfold lowest
  rw [List.range'_succ, List.findSome?_cons, h]

/-- Step: the logs move on, the oldest of the three to `logfile.9`. -/
theorem Rotated.step {log previous : String} {before : List String}
    (h : Rotated logfile (log :: previous :: before) fs t)
    {s : Session T} (hrun : session ctime logfile t s = some t') :
    Rotated logfile (s.log ctime :: log :: previous :: before) fs t' ∧ t' (backup logfile 9) = some previous := by
  obtain ⟨hrotated, hninth⟩ := session_some h.latest hrun
  refine ⟨⟨hrotated.latest, hrotated.first, hrotated.emptied, fun path hpath => ?_⟩, ?_⟩
  · exact (hrotated.other path hpath).trans (h.other path hpath)
  · exact hninth.trans (lowest_first h.first)

/-- What holds once three logs are there. -/
structure LastThree (logfile : String) (logs : List String) (fs t : FileSystem) : Prop extends
    Rotated logfile logs fs t where
  last : t (backup logfile 9) = logs[2]?

theorem Rotated.run {before : List String} (hbefore : 2 ≤ before.length) (h : Rotated logfile before fs t)
    {sessions : List (Session T)} (hrun : Runs.run (session ctime logfile) t sessions = some t') (hne : sessions ≠ []) :
    LastThree logfile ((sessions.map (Session.log ctime)).reverse ++ before) fs t' := by
  induction sessions generalizing t before with
  | nil => exact absurd rfl hne
  | cons s rest ih =>
    obtain ⟨u, hsession, hrest⟩ := Runs.run_cons hrun
    obtain ⟨log, previous, older, rfl⟩ : ∃ log previous older, before = log :: previous :: older := by
      match before, hbefore with
      | log :: previous :: older, _ => exact ⟨log, previous, older, rfl⟩
    obtain ⟨hrotated, hninth⟩ := h.step hsession
    rw [List.map_cons, List.reverse_cons, List.append_assoc, List.singleton_append]
    by_cases hlast : rest = []
    · subst hlast
      obtain rfl := Option.some.inj hrest
      exact ⟨hrotated, hninth⟩
    · exact ih (by simp) hrotated hrest hlast

/-- **Only the last three logs survive**: from the second rotation on the log file has the latest, `logfile.1` the
one before and `logfile.9` the one before that; there is no other backup up to `logfile.8`, and no other file has been
touched. -/
theorem last_three (fs : FileSystem) (sessions : List (Session T)) (h2 : 2 ≤ rotations logfile fs sessions)
    (hrun : Runs.run (session ctime logfile) fs sessions = some t) :
    LastThree logfile (logs ctime logfile fs sessions) fs t := by
  unfold logs
  cases sessions with
  | nil => simp [rotations] at h2
  | cons s rest =>
    obtain ⟨u, hsession, hrest⟩ := Runs.run_cons hrun
    rw [List.map_cons, List.reverse_cons, List.append_assoc, List.singleton_append]
    cases hlog : fs logfile with
    | some log =>
      obtain ⟨hrotated, _⟩ := session_some hlog hsession
      have hmore : rest ≠ [] := by
        rintro rfl
        simp [rotations, hlog] at h2
      exact hrotated.run (by simp) hrest hmore
    | none =>
      obtain ⟨hlatest, hsame⟩ := session_none hlog hsession
      cases rest with
      | nil => simp [rotations, hlog] at h2
      | cons s' rest =>
        obtain ⟨v, hsession', hrest'⟩ := Runs.run_cons hrest
        obtain ⟨hrotated, _⟩ := session_some hlatest hsession'
        have hmore : rest ≠ [] := by
          rintro rfl
          simp [rotations, hlog] at h2
        have hrotated' : Rotated logfile [s'.log ctime, s.log ctime] fs v :=
          ⟨hrotated.latest, hrotated.first, hrotated.emptied, fun path hpath =>
            (hrotated.other path hpath).trans (hsame path hpath.1)⟩
        rw [List.map_cons, List.reverse_cons, List.append_assoc, List.singleton_append]
        exact hrotated'.run (by simp) hrest' hmore

/-- Four sessions: of the first nothing is left. -/
theorem last_three_four : ∃ t, Runs.run (session (fun _ => "now") "test.log") (fun _ => none)
    (["1", "2", "3", "4"].map fun message => ⟨(), [message]⟩) = some t ∧
      LastThree "test.log" (["4", "3", "2", "1"].map fun message => Session.log (fun _ => "now") ⟨(), [message]⟩)
        (fun _ => none) t := by
  obtain ⟨t, hrun⟩ : ∃ t, Runs.run (session (fun _ : Unit => "now") "test.log") (fun _ => none)
      (["1", "2", "3", "4"].map fun message => ⟨(), [message]⟩) = some t := ⟨_, rfl⟩
  exact ⟨t, hrun, last_three (fun _ => none) _ (by decide) hrun⟩

end Joblib.Logger
