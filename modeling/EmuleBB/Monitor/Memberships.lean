import EmuleBB.Lib.Map
import EmuleBB.Lib.Run

/-!
# A reload's commit and the paths shared meanwhile

A reload scans each root, hashes what is new, and at the end replaces the memberships of each root
by the scanned paths whose verified fingerprint is the scanned one. Targeted re-hashes and direct
shares admit single paths beside it, and anybody may rewrite a file.

**The commit knows only the scan.** A path that was rewritten, verified again and admitted after the
scan is withdrawn, although the file is still the one that was admitted
(`commit_withdraws_admitted_path`). What the scan recorded as it was admitted stays
(`commit_keeps_admitted_paths`).
-/

namespace EmuleBB.Monitor

open Function Run

/-- The files on disk, what the store verified, and the memberships of each root. -/
structure Library (Root Path : Type) where
  /-- The fingerprint each file has; a changed file gets a new one. -/
  files : Map Path Nat
  nextFingerprint : Nat
  /-- `local_file_instances.verified_fingerprint`. -/
  verifiedFingerprint : Path → Option Nat
  /-- The active rows of `shared_file_memberships`. -/
  members : Root → Path → Bool
  /-- What the running job found when it scanned the root. -/
  rootFiles : Root → Option (List (Path × Nat))
  /-- What was admitted to the root since. -/
  admitted : Root → List (Path × Nat)

namespace Library

variable {Root Path : Type} [DecidableEq Root] [DecidableEq Path]

/-- Changes on disk, and the steps of ingestion and scan. -/
inductive Event (Root Path : Type)
  | rewrite (path : Path)
  | delete (path : Path)
  | ingest (path : Path)
  | admission (root : Root) (path : Path) (current : Nat)
  | scan (root : Root)
  | commit (root : Root)

def init : Library Root Path := ⟨∅, 0, fun _ => none, fun _ _ => false, fun _ => none, fun _ => []⟩

def admitLocalPathToRoot (s : Library Root Path) (root : Root) (path : Path) (current : Nat) :
    Library Root Path :=
  if s.verifiedFingerprint path = some current then
    { s with
      members := update s.members root (update (s.members root) path true)
      admitted := update s.admitted root ((path, current) :: s.admitted root) }
  else s

def replaceRootMemberships (s : Library Root Path) (root : Root) (paths : List (Path × Nat)) :
    Library Root Path :=
  { s with
    members := update s.members root fun path =>
      paths.any fun scanned => scanned.1 = path && s.verifiedFingerprint path = some scanned.2
    rootFiles := update s.rootFiles root none }

/-- `shares root path` says whether the path lies under the root and passes the intake policy, and
    `accessible` which roots are enabled, accessible and shareable. -/
def step (shares : Root → Path → Bool) (accessible : Root → Bool) (s : Library Root Path) :
    Event Root Path → Library Root Path
  | .rewrite path =>
    { s with
      files := s.files.insert path s.nextFingerprint
      nextFingerprint := s.nextFingerprint + 1 }
  | .delete path => { s with files := s.files.erase path }
  | .ingest path =>
    match s.files.lookup path with
    | some current =>
      { s with verifiedFingerprint := update s.verifiedFingerprint path (some current) }
    | none => s
  | .admission root path current =>
    if accessible root && shares root path then s.admitLocalPathToRoot root path current else s
  | .scan root =>
    { s with
      rootFiles := update s.rootFiles root (some ((s.files.entries.map fun file =>
        (file.1, file.2)).filter fun file => shares root file.1))
      admitted := update s.admitted root [] }
  | .commit root =>
    match s.rootFiles root with
    | some paths => s.replaceRootMemberships root paths
    | none => s

/-- The commit of a root withdraws nothing that was admitted since the scan and has not changed. -/
def Keeps (shares : Root → Path → Bool) (accessible : Root → Bool) (s : Library Root Path) :
    Event Root Path → Prop
  | .commit root => s.rootFiles root ≠ none → ∀ member ∈ s.admitted root,
      s.files.lookup member.1 = some member.2 →
        (s.step shares accessible (.commit root)).members root member.1 = true
  | _ => True

/-- Between the scan of a root and its commit, what is admitted is what the scan found. -/
def Scanned (s : Library Root Path) : Event Root Path → Prop
  | .admission root path current => ∀ paths ∈ s.rootFiles root, (path, current) ∈ paths
  | _ => True

instance (s : Library Root Path) (e : Event Root Path) : Decidable (s.Scanned e) := by
  cases e <;> unfold Scanned <;> infer_instance

/-- What was admitted and not rewritten is verified, and was scanned. -/
structure Sound (s : Library Root Path) : Prop where
  files : ∀ path current, s.files.lookup path = some current → current < s.nextFingerprint
  verified : ∀ path current, s.verifiedFingerprint path = some current →
    current < s.nextFingerprint
  admitted : ∀ root path current, (path, current) ∈ s.admitted root →
    current < s.nextFingerprint ∧
      (s.files.lookup path = some current → s.verifiedFingerprint path = some current)
  scanned : ∀ root paths, s.rootFiles root = some paths → ∀ member ∈ s.admitted root, member ∈ paths

variable {shares : Root → Path → Bool} {accessible : Root → Bool} {s : Library Root Path}

theorem Sound.step (h : s.Sound) (e : Event Root Path) (hscanned : s.Scanned e) :
    (s.step shares accessible e).Sound := by
  obtain ⟨hfiles, hverified, hadmitted, hpaths⟩ := h
  cases e with
  | rewrite =>
    -- the new fingerprint is none that was admitted
    constructor <;> simp only [Library.step, Map.lookup_insert] <;> grind
  | delete => constructor <;> simp only [Library.step, Map.lookup_erase] <;> grind
  | ingest =>
    simp only [Library.step]
    split
    · constructor <;> simp only [update_apply] <;> grind
    · exact ⟨hfiles, hverified, hadmitted, hpaths⟩
  | admission =>
    simp only [Library.step, admitLocalPathToRoot]
    split
    · split
      · constructor <;> simp only [update_apply, Scanned] at * <;> grind
      · exact ⟨hfiles, hverified, hadmitted, hpaths⟩
    · exact ⟨hfiles, hverified, hadmitted, hpaths⟩
  | scan => constructor <;> simp only [Library.step, update_apply] <;> grind
  | commit =>
    simp only [Library.step]
    split
    · constructor <;> simp only [replaceRootMemberships, update_apply] <;> grind
    · exact ⟨hfiles, hverified, hadmitted, hpaths⟩

/-- The file is the one that was admitted, so it is verified as that, and the scan has it. -/
theorem Sound.keeps (h : s.Sound) (e : Event Root Path) : s.Keeps shares accessible e := by
  cases e with
  | commit root =>
    intro hroot member hmember hfile
    obtain ⟨paths, hpaths⟩ := Option.ne_none_iff_exists'.mp hroot
    simp only [Library.step, hpaths, replaceRootMemberships, update_self, List.any_eq_true,
      Bool.and_eq_true, decide_eq_true_eq]
    exact ⟨member, h.scanned root paths hpaths member hmember, rfl,
      (h.admitted root member.1 member.2 hmember).2 hfile⟩
  | _ => trivial

/-- **A commit keeps what was admitted since the scan**, in every interleaving in which a path is
    admitted between the scan of a root and its commit only as the scan found it. -/
theorem commit_keeps_admitted_paths (shares : Root → Path → Bool) (accessible : Root → Bool)
    (es : List (Event Root Path)) (h : Along (step shares accessible) Scanned init es) :
    Along (step shares accessible) (Keeps shares accessible) init es := by
  have hinit : (init : Library Root Path).Sound := by constructor <;> simp [init]
  exact h.along (fun s e (hs : s.Sound) he => ⟨hs.keeps e, hs.step e he⟩) hinit

/-- A path is admitted again, as it was scanned, while the job runs. -/
theorem commit_keeps_admitted_paths_again :
    let es : List (Event Unit Nat) :=
      [.rewrite 7, .ingest 7, .scan (), .admission () 7 0, .rewrite 8, .commit ()]
    Along (step (fun _ _ => true) fun _ => true) (Keeps (fun _ _ => true) fun _ => true) init es :=
  commit_keeps_admitted_paths _ _ _ (by decide)

/-- **A commit withdraws a path that was admitted since the scan.** The file is rewritten after the
    scan, verified again and admitted; it is unchanged when the commit takes it out of the root. -/
theorem commit_withdraws_admitted_path :
    let before := run (step (fun _ _ => true) fun _ => true) (init : Library Unit Nat)
      [.rewrite 7, .ingest 7, .scan (), .rewrite 7, .ingest 7, .admission () 7 1]
    before.members () 7 = true ∧ before.files.lookup 7 = some 1 ∧ before.admitted () = [(7, 1)] ∧
      (before.step (fun _ _ => true) (fun _ => true) (.commit ())).members () 7 = false := by
  decide

end Library

end EmuleBB.Monitor
