import Std.Data.String.ToNat
import Joblib.Runtime.Python
import Joblib.Lib.Runs

/-! The log file of `PrintTime` and the older logs it keeps.

Constructed on an existing log file, `PrintTime` moves `logfile.1` to `logfile.2`, then
`logfile.2` to `logfile.3` and so on up to `logfile.9`, and copies the log to `logfile.1`.
The moves go upwards, each onto the file that the next one takes, so the lowest file that
exists travels to `logfile.9` and replaces every file on its way (`rotate_carried`). History is
kept along a sequence of sessions exactly if at most one of them finds a log file, and that
one none of `logfile.1` to `logfile.7` (`history_iff`). -/
namespace Joblib.Logger

/-- The contents of the files that exist. Directories are not modelled: `mkdirp` has an
empty body. -/
abbrev FileSystem := String → Option String

namespace FileSystem

def write (fs : FileSystem) (path content : String) : FileSystem := Function.update fs path (some content)

/-- `shutil.move`: it raises where there is no `src`. -/
def move (fs : FileSystem) (src dst : String) : Option FileSystem :=
  (fs src).map fun content => Function.update (fs.write dst content) src none

/-- `shutil.copy`. -/
def copy (fs : FileSystem) (src dst : String) : Option FileSystem :=
  (fs src).map fun content => fs.write dst content

end FileSystem

/-- `logfile + '.%i' % i`. -/
def backup (logfile : String) (i : Nat) : String := logfile ++ ("." ++ toString i)

/-- `os.path.join(logdir, name)`, for a relative name. -/
def join (logdir name : String) : String :=
  if logdir.isEmpty || logdir.endsWith "/" then logdir ++ name else logdir ++ "/" ++ name

/-- The body of the loop: what `move` raises is dropped. -/
def rotateOne (logfile : String) (fs : FileSystem) (i : Nat) : FileSystem :=
  (fs.move (backup logfile i) (backup logfile (i + 1))).getD fs

/-- `for i in range(1, 9)`. -/
def rotate (logfile : String) (fs : FileSystem) : FileSystem :=
  (List.range' 1 8).foldl (rotateOne logfile) fs

/-- What `with open(logfile, 'w')` writes, `ctime` being the time as text. -/
def header (ctime : String) : String :=
  "\nLogging joblib python script\n" ++ ("\n---" ++ ctime ++ "---\n")

/-- `PrintTime`, over clock readings of any type. -/
structure PrintTime (T : Type) where
  lastTime : T
  startTime : T
  logfile : Option String

section Sessions
variable {T : Type} (ctime : T → String)

/-- What `__init__` does to the files, the log file known. -/
def openLog (logfile : String) (now : T) (fs : FileSystem) : FileSystem :=
  let rotated :=
    if (fs logfile).isSome then
      let moved := rotate logfile fs
      (moved.copy logfile (backup logfile 1)).getD moved
    else fs
  rotated.write logfile (header (ctime now))

/-- `__init__`. -/
def PrintTime.init (logfile logdir : Option String) (now : T) (fs : FileSystem) :
    Except (Exc Empty) (PrintTime T) × FileSystem :=
  if logfile.isSome && logdir.isSome then
    (.error (.valueError "Cannot specify both logfile and logdir"), fs)
  else
    let logfile := (logdir.map fun dir => join dir "joblib.log") <|> logfile
    (.ok ⟨now, now, logfile⟩,
      match logfile with
      | none => fs
      | some logfile => openLog ctime logfile now fs)

/-- `print(full_msg, file=f)` on the log file opened for appending; the part of `__call__`
that touches a file. -/
def PrintTime.append (self : PrintTime T) (fs : FileSystem) (fullMsg : String) : FileSystem :=
  match self.logfile with
  | none => fs
  | some logfile => fs.write logfile ((fs logfile).getD "" ++ fullMsg ++ "\n")

/-- A run of a program that logs: when its `PrintTime` is made and what it then prints. -/
structure Session (T : Type) where
  now : T
  messages : List String

/-- `PrintTime(logfile=logfile)`, then its calls. -/
def session (logfile : String) (fs : FileSystem) (s : Session T) : Option FileSystem :=
  match PrintTime.init ctime (some logfile) none s.now fs with
  | (.ok self, fs) => some (s.messages.foldl self.append fs)
  | (.error _, _) => none

/-- The log a session leaves. -/
def Session.log (s : Session T) : String :=
  s.messages.foldl (fun content fullMsg => content ++ fullMsg ++ "\n") (header (ctime s.now))

end Sessions

/-! ### The moves -/

section Moves
variable {logfile : String} {fs t : FileSystem}

theorem backup_inj {i j : Nat} : backup logfile i = backup logfile j ↔ i = j := by
  unfold backup
  rw [String.append_right_inj, String.append_right_inj]
  exact Nat.repr_inj

theorem backup_ne_logfile (i : Nat) : backup logfile i ≠ logfile := by
  intro h
  have hempty := String.append_eq_left_iff.mp h
  have hlength := congrArg String.length hempty
  rw [String.length_append] at hlength
  simp at hlength

/-- The content of the lowest of the first `m` backups that exists. -/
def lowest (logfile : String) (fs : FileSystem) (m : Nat) : Option String :=
  (List.range' 1 m).findSome? fun i => fs (backup logfile i)

theorem lowest_succ (logfile : String) (fs : FileSystem) (m : Nat) :
    lowest logfile fs (m + 1) = (lowest logfile fs m <|> fs (backup logfile (m + 1))) := by
  unfold lowest
  rw [List.range'_concat, List.findSome?_append, Nat.add_comm m 1]
  simp

/-- After the first `m` moves: the lowest backup has travelled to the next place. -/
structure Carried (logfile : String) (fs : FileSystem) (m : Nat) (t : FileSystem) : Prop where
  top : t (backup logfile (m + 1)) = lowest logfile fs (m + 1)
  emptied : ∀ i, 1 ≤ i → i ≤ m → t (backup logfile i) = none
  other : ∀ path, (∀ i, 1 ≤ i → i ≤ m + 1 → path ≠ backup logfile i) → t path = fs path

theorem Carried.zero (logfile : String) (fs : FileSystem) : Carried logfile fs 0 fs where
  top := by simp [lowest]
  emptied i hpos hle := by omega
  other _ _ := rfl

/-- One move takes what was carried so far one place up, onto what stands there. -/
theorem Carried.step {m : Nat} (h : Carried logfile fs m t) :
    Carried logfile fs (m + 1) (rotateOne logfile t (m + 1)) := by
  have habove : t (backup logfile (m + 2)) = fs (backup logfile (m + 2)) := by
    apply h.other
    intro i _ hle heq
    have := backup_inj.mp heq
    omega
  have hlowest := lowest_succ logfile fs (m + 1)
  cases htop : t (backup logfile (m + 1)) with
  | none =>
    have hrest : rotateOne logfile t (m + 1) = t := by simp [rotateOne, FileSystem.move, htop]
    rw [← h.top, htop] at hlowest
    rw [hrest]
    refine ⟨by simpa [habove] using hlowest.symm, ?_, fun path hpath => h.other path fun i hpos hle => ?_⟩
    · intro i hpos hle
      by_cases hi : i = m + 1
      · rw [hi]
        exact htop
      · exact h.emptied i hpos (by omega)
    · exact hpath i hpos (by omega)
  | some content =>
    have hmoved : rotateOne logfile t (m + 1) =
        Function.update (t.write (backup logfile (m + 2)) content) (backup logfile (m + 1)) none := by
      simp [rotateOne, FileSystem.move, htop]
    rw [← h.top, htop] at hlowest
    rw [hmoved]
    refine ⟨?_, ?_, ?_⟩
    · have hne : backup logfile (m + 2) ≠ backup logfile (m + 1) := fun heq => by
        have := backup_inj.mp heq
        omega
      rw [Function.update_of_ne hne, FileSystem.write, Function.update_self]
      exact hlowest.symm
    · intro i hpos hle
      by_cases hi : i = m + 1
      · rw [hi, Function.update_self]
      · have hlow : backup logfile i ≠ backup logfile (m + 1) := fun heq => hi (backup_inj.mp heq)
        have hhigh : backup logfile i ≠ backup logfile (m + 2) := fun heq => by
          have := backup_inj.mp heq
          omega
        rw [Function.update_of_ne hlow, FileSystem.write, Function.update_of_ne hhigh]
        exact h.emptied i hpos (by omega)
    · intro path hpath
      rw [Function.update_of_ne (hpath (m + 1) (by omega) (by omega)), FileSystem.write,
        Function.update_of_ne (hpath (m + 2) (by omega) (by omega))]
      exact h.other path fun i hpos hle => hpath i hpos (by omega)

/-- The loop empties the first eight places and fills the ninth. -/
theorem rotate_carried (logfile : String) (fs : FileSystem) : Carried logfile fs 8 (rotate logfile fs) := by
  have hupto : ∀ m, Carried logfile fs m ((List.range' 1 m).foldl (rotateOne logfile) fs) := by
    intro m
    induction m with
    | zero => exact Carried.zero logfile fs
    | succ m ih =>
      rw [List.range'_concat, List.foldl_append, Nat.add_comm 1]
      simpa using ih.step
  exact hupto 8

end Moves

/-! ### One construction -/

/-- History is carried over from `fs` to `t`: each backup but the last moves up, the log
becomes the first, and only the last backup's content may be lost. -/
structure Rotates (logfile : String) (fs t : FileSystem) : Prop where
  moved : ∀ i content, 1 ≤ i → i ≤ 8 → fs (backup logfile i) = some content →
    t (backup logfile (i + 1)) = some content
  copied : ∀ content, fs logfile = some content → t (backup logfile 1) = some content
  kept : ∀ path content, path ≠ backup logfile 9 → fs path = some content → ∃ path', t path' = some content

/-- None of `logfile.1` to `logfile.7` exists. -/
def Unoccupied (logfile : String) (fs : FileSystem) : Prop :=
  ∀ i, 1 ≤ i → i ≤ 7 → fs (backup logfile i) = none

section Construction
variable {T : Type} {ctime : T → String} {logfile : String} {now : T} {fs : FileSystem}

/-- The files after a construction on an existing log. -/
theorem openLog_of_some {content : String} (h : fs logfile = some content) :
    openLog ctime logfile now fs =
      ((rotate logfile fs).write (backup logfile 1) content).write logfile (header (ctime now)) := by
  have hlog : rotate logfile fs logfile = some content := by
    rw [(rotate_carried logfile fs).other logfile fun i _ _ => (backup_ne_logfile i).symm]
    exact h
  simp [openLog, h, FileSystem.copy, hlog]

theorem openLog_of_none (h : fs logfile = none) :
    openLog ctime logfile now fs = fs.write logfile (header (ctime now)) := by
  simp [openLog, h]

theorem openLog_first {content : String} (h : fs logfile = some content) :
    openLog ctime logfile now fs (backup logfile 1) = some content := by
  rw [openLog_of_some h, FileSystem.write, Function.update_of_ne (backup_ne_logfile 1), FileSystem.write,
    Function.update_self]

theorem openLog_backup {content : String} (h : fs logfile = some content) {i : Nat} (hi : 2 ≤ i) :
    openLog ctime logfile now fs (backup logfile i) = rotate logfile fs (backup logfile i) := by
  have hne : backup logfile i ≠ backup logfile 1 := fun heq => by
    have := backup_inj.mp heq
    omega
  rw [openLog_of_some h, FileSystem.write, Function.update_of_ne (backup_ne_logfile i), FileSystem.write,
    Function.update_of_ne hne]

theorem openLog_other {content path : String} (h : fs logfile = some content) (hlog : path ≠ logfile)
    (hpath : ∀ i, path ≠ backup logfile i) : openLog ctime logfile now fs path = fs path := by
  rw [openLog_of_some h, FileSystem.write, Function.update_of_ne hlog, FileSystem.write,
    Function.update_of_ne (hpath 1)]
  exact (rotate_carried logfile fs).other path fun i _ _ => hpath i

/-- With the low places free, the eighth backup is the one that is carried. -/
theorem lowest_of_unoccupied (h : Unoccupied logfile fs) :
    lowest logfile fs 9 = (fs (backup logfile 8) <|> fs (backup logfile 9)) := by
  have hupto : ∀ m, m ≤ 7 → lowest logfile fs m = none := by
    intro m hm
    induction m with
    | zero => rfl
    | succ m ih => rw [lowest_succ, ih (by omega), h (m + 1) (by omega) hm]; rfl
  rw [lowest_succ, lowest_succ, hupto 7 le_rfl]
  rfl

/-- A construction on an existing log carries history over exactly if it finds the low
places free: it leaves the places it moves files out of empty. -/
theorem rotates_iff {content : String} (h : fs logfile = some content) :
    Rotates logfile fs (openLog ctime logfile now fs) ↔ Unoccupied logfile fs := by
  constructor
  · intro hrotates i hpos hle
    cases hfile : fs (backup logfile i) with
    | none => rfl
    | some old =>
      have hmoved := hrotates.moved i old hpos (by omega) hfile
      rw [openLog_backup h (by omega), (rotate_carried logfile fs).emptied (i + 1) (by omega) (by omega)] at hmoved
      cases hmoved
  · intro hfree
    have hninth : openLog ctime logfile now fs (backup logfile 9) =
        (fs (backup logfile 8) <|> fs (backup logfile 9)) := by
      rw [openLog_backup h (by omega), (rotate_carried logfile fs).top, lowest_of_unoccupied hfree]
    have heighth {old : String} (hold : fs (backup logfile 8) = some old) :
        openLog ctime logfile now fs (backup logfile 9) = some old := by
      rw [hninth, hold]
      rfl
    refine ⟨?_, fun old hold => ?_, fun path old hne hold => ?_⟩
    · intro i old hpos hle hold
      by_cases hi : i = 8
      · subst hi
        exact heighth hold
      · rw [hfree i hpos (by omega)] at hold
        cases hold
    · exact openLog_first hold
    · by_cases hlog : path = logfile
      · subst hlog
        exact ⟨_, openLog_first hold⟩
      · by_cases hpath : ∃ i, path = backup logfile i
        · obtain ⟨i, rfl⟩ := hpath
          -- `i` is 8, 0 or above 9: the last two are no places of the loop
          by_cases hi : i = 8
          · subst hi
            exact ⟨_, heighth hold⟩
          · by_cases hlow : 1 ≤ i ∧ i ≤ 7
            · rw [hfree i hlow.1 hlow.2] at hold
              cases hold
            · have hnine : i ≠ 9 := fun heq => hne (by rw [heq])
              have hone : backup logfile i ≠ backup logfile 1 := fun heq => by
                have := backup_inj.mp heq
                omega
              refine ⟨backup logfile i, ?_⟩
              rw [openLog_of_some h, FileSystem.write, Function.update_of_ne (backup_ne_logfile i),
                FileSystem.write, Function.update_of_ne hone, (rotate_carried logfile fs).other _ ?_]
              · exact hold
              · intro k hpos hle heq
                have := backup_inj.mp heq
                omega
        · exact ⟨path, by rw [openLog_other h hlog fun i hi => hpath ⟨i, hi⟩]; exact hold⟩

end Construction

/-! ### Sessions -/

section History
variable {T : Type} (ctime : T → String) (logfile : String)

/-- A session that finds a log carries history over in its construction. -/
def RotatesFound (fs : FileSystem) (s : Session T) (_ : FileSystem) : Prop :=
  (fs logfile).isSome → Rotates logfile fs (openLog ctime logfile s.now fs)

/-- The logs of the sessions and the one found at first, the latest first. -/
def logs (fs : FileSystem) (sessions : List (Session T)) : List String :=
  (sessions.map (Session.log ctime)).reverse ++ (fs logfile).toList

/-- The first nine backups hold the logs before the latest, in order. -/
structure Holds (logs : List String) (fs : FileSystem) : Prop where
  latest : fs logfile = logs[0]?
  backups : ∀ j log, 1 ≤ j → j ≤ 9 → logs[j]? = some log → fs (backup logfile j) = some log

/-- History is kept: each construction on an existing log carries it over, and in the end the
`j`-th backup holds the log of the `j`-th session before the last. -/
def KeepsHistory (fs : FileSystem) (sessions : List (Session T)) : Prop :=
  Runs.Every (session ctime logfile) (RotatesFound ctime logfile) fs sessions ∧
    ∀ t, Runs.run (session ctime logfile) fs sessions = some t →
      ∀ j log, 1 ≤ j → j ≤ min sessions.length 9 → (logs ctime logfile fs sessions)[j]? = some log →
        t (backup logfile j) = some log

/-- How many of the sessions find a log. -/
def rotations (fs : FileSystem) (sessions : List (Session T)) : Nat :=
  sessions.length - if (fs logfile).isSome then 0 else 1

variable {ctime logfile}

/-- What a session's calls print goes to its log. -/
theorem foldl_append (self : PrintTime T) (hself : self.logfile = some logfile) (messages : List String)
    (fs : FileSystem) (content : String) :
    messages.foldl self.append (fs.write logfile content) =
      fs.write logfile (messages.foldl (fun content fullMsg => content ++ fullMsg ++ "\n") content) := by
  induction messages generalizing content with
  | nil => rfl
  | cons fullMsg rest ih =>
    have hstep : self.append (fs.write logfile content) fullMsg =
        fs.write logfile (content ++ fullMsg ++ "\n") := by
      simp [PrintTime.append, hself, FileSystem.write]
    rw [List.foldl_cons, List.foldl_cons, hstep]
    exact ih _

/-- A session opens the log and leaves its own there. -/
theorem session_eq (fs : FileSystem) (s : Session T) :
    session ctime logfile fs s = some ((openLog ctime logfile s.now fs).write logfile (s.log ctime)) := by
  have hopen : ∃ base : FileSystem, openLog ctime logfile s.now fs = base.write logfile (header (ctime s.now)) :=
    ⟨_, rfl⟩
  obtain ⟨base, hbase⟩ := hopen
  have hself : (PrintTime.logfile ⟨s.now, s.now, some logfile⟩ : Option String) = some logfile := rfl
  have hmessages := foldl_append _ hself s.messages base (header (ctime s.now))
  have hrun : session ctime logfile fs s =
      some (s.messages.foldl (PrintTime.append ⟨s.now, s.now, some logfile⟩)
        (openLog ctime logfile s.now fs)) := by
    simp [session, PrintTime.init]
  rw [hrun, hbase, hmessages]
  congr 1
  simp [FileSystem.write, Session.log]

/-- Step: if the construction carries history over, the backups hold one log more. -/
theorem Holds.step {before : List String} {fs : FileSystem} (h : Holds logfile before fs) {s : Session T}
    (hrotates : RotatesFound ctime logfile fs s fs) {t : FileSystem} (ht : session ctime logfile fs s = some t) :
    Holds logfile (s.log ctime :: before) t := by
  rw [session_eq] at ht
  obtain rfl := Option.some.inj ht
  refine ⟨by simp [FileSystem.write], fun j log hpos hle hlog => ?_⟩
  rw [FileSystem.write, Function.update_of_ne (backup_ne_logfile j)]
  cases j with
  | zero => omega
  | succ j =>
    rw [List.getElem?_cons_succ] at hlog
    have hsome : (fs logfile).isSome := by
      have hlength := (List.getElem?_eq_some_iff.mp hlog).1
      rw [h.latest, List.getElem?_eq_getElem (by omega)]
      rfl
    by_cases hj : j = 0
    · subst hj
      exact (hrotates hsome).copied log (h.latest.trans hlog)
    · exact (hrotates hsome).moved j log (by omega) (by omega) (h.backups j log (by omega) (by omega) hlog)

/-- Run: constructions that carry history over keep it. -/
theorem Holds.run {before : List String} {fs : FileSystem} (h : Holds logfile before fs)
    {sessions : List (Session T)}
    (hevery : Runs.Every (session ctime logfile) (RotatesFound ctime logfile) fs sessions) {t : FileSystem}
    (ht : Runs.run (session ctime logfile) fs sessions = some t) :
    Holds logfile ((sessions.map (Session.log ctime)).reverse ++ before) t := by
  induction sessions generalizing fs before with
  | nil =>
    obtain rfl := Option.some.inj ht
    exact h
  | cons s rest ih =>
    obtain ⟨fs', hfs', hrest⟩ := Runs.run_cons ht
    obtain ⟨hrotates, hevery'⟩ := hevery fs' hfs'
    have hlater := ih (h.step hrotates hfs') hevery' hrest
    rw [List.map_cons, List.reverse_cons, List.append_assoc]
    exact hlater

theorem Holds.initial (fs : FileSystem) : Holds logfile (fs logfile).toList fs where
  latest := by cases fs logfile <;> rfl
  backups j log hpos _ hlog := by
    have hlength := (List.getElem?_eq_some_iff.mp hlog).1
    have hone : (fs logfile).toList.length ≤ 1 := by cases fs logfile <;> simp
    omega

/-- A second construction on an existing log finds the first backup there. -/
theorem rotates_found_iff {fs : FileSystem} (h : (fs logfile).isSome) (sessions : List (Session T)) :
    Runs.Every (session ctime logfile) (RotatesFound ctime logfile) fs sessions ↔
      sessions.length ≤ 1 ∧ (sessions.length = 1 → Unoccupied logfile fs) := by
  obtain ⟨content, hcontent⟩ := Option.isSome_iff_exists.mp h
  cases sessions with
  | nil => simp [Runs.Every]
  | cons s rest =>
    obtain ⟨t, ht⟩ : ∃ t, session ctime logfile fs s = some t := ⟨_, session_eq fs s⟩
    have hlog : t logfile = some (s.log ctime) := by
      rw [session_eq] at ht
      rw [← Option.some.inj ht]
      simp [FileSystem.write]
    have hfirst : t (backup logfile 1) = some content := by
      rw [session_eq] at ht
      rw [← Option.some.inj ht, FileSystem.write, Function.update_of_ne (backup_ne_logfile 1)]
      exact openLog_first hcontent
    cases rest with
    | nil =>
      constructor
      · intro hevery
        exact ⟨le_rfl, fun _ => (rotates_iff hcontent).mp ((hevery t ht).1 h)⟩
      · intro hfree t' _
        exact ⟨fun _ => (rotates_iff hcontent).mpr (hfree.2 rfl), trivial⟩
    | cons s' rest =>
      constructor
      · intro hevery
        obtain ⟨_, hrest⟩ := hevery t ht
        have hrotates := (hrest _ (session_eq t s')).1 (by rw [hlog]; rfl)
        have hfree := (rotates_iff hlog).mp hrotates 1 le_rfl (by omega)
        rw [hfirst] at hfree
        cases hfree
      · intro hshort
        simp at hshort

/-- Every construction carries history over exactly if at most one finds a log and that one
the low places free. -/
theorem every_rotates_iff (fs : FileSystem) (sessions : List (Session T)) :
    Runs.Every (session ctime logfile) (RotatesFound ctime logfile) fs sessions ↔
      rotations logfile fs sessions ≤ 1 ∧ (rotations logfile fs sessions = 1 → Unoccupied logfile fs) := by
  by_cases h : (fs logfile).isSome
  · simpa [rotations, h] using rotates_found_iff h sessions
  · have hnone : fs logfile = none := Option.not_isSome_iff_eq_none.mp h
    cases sessions with
    | nil => simp [Runs.Every, rotations]
    | cons s rest =>
      -- the first session only makes the log: the rest runs from files with the same backups
      obtain ⟨t, ht⟩ : ∃ t, session ctime logfile fs s = some t := ⟨_, session_eq fs s⟩
      have hlog : (t logfile).isSome := by
        rw [session_eq] at ht
        rw [← Option.some.inj ht]
        simp [FileSystem.write]
      have hbackup (i : Nat) : t (backup logfile i) = fs (backup logfile i) := by
        rw [session_eq, openLog_of_none hnone] at ht
        rw [← Option.some.inj ht]
        simp [FileSystem.write, Function.update_of_ne (backup_ne_logfile i)]
      have hfree : Unoccupied logfile t ↔ Unoccupied logfile fs := by
        simp only [Unoccupied, hbackup]
      have hrest : Runs.Every (session ctime logfile) (RotatesFound ctime logfile) fs (s :: rest) ↔
          Runs.Every (session ctime logfile) (RotatesFound ctime logfile) t rest := by
        constructor
        · intro hevery
          exact (hevery t ht).2
        · intro hevery t' ht'
          obtain rfl := Option.some.inj (ht.symm.trans ht')
          exact ⟨fun hsome => absurd hsome h, hevery⟩
      rw [hrest, rotates_found_iff hlog, hfree]
      simp [rotations, h]

/-- **History is kept** along a sequence of sessions exactly if at most one of them finds a
log file, and that one none of `logfile.1` to `logfile.7`. -/
theorem history_iff (ctime : T → String) (logfile : String) (fs : FileSystem) (sessions : List (Session T)) :
    KeepsHistory ctime logfile fs sessions ↔
      rotations logfile fs sessions ≤ 1 ∧ (rotations logfile fs sessions = 1 → Unoccupied logfile fs) := by
  have hrotates : Runs.Every (session ctime logfile) (RotatesFound ctime logfile) fs sessions ↔ _ :=
    every_rotates_iff fs sessions
  rw [← hrotates]
  constructor
  · exact fun h => h.1
  · intro hevery
    refine ⟨hevery, fun t ht j log hpos hle hlog => ?_⟩
    exact ((Holds.initial fs).run hevery ht).backups j log hpos (by omega) hlog

end History

/-- Three sessions from an empty directory: the third moves the only backup to `logfile.9`. -/
theorem three_sessions_lose_order :
    ¬ ∀ (fs : FileSystem) (sessions : List (Session Unit)),
      KeepsHistory (fun _ => "now") "test.log" fs sessions := by
  intro h
  have hthree := (h (fun _ => none) (List.replicate 3 ⟨(), ["Foo"]⟩)).1
  have hshort := ((every_rotates_iff _ _).mp hthree).1
  simp [rotations] at hshort

end Joblib.Logger
