import MatchBench.Capture.Parse
import MatchBench.Lib.Path

/-!
# Extraction of an artifact

The fetcher of the build worker checks the entry names of an archive with `CheckZipSlip`,
and then `extractZip` writes the entries below `/workspace`.  The check joins a name to
`/safe` and asks whether the path stays there; the extraction joins it to `/workspace`.  So
a name that climbs out of its root and comes down in `/safe` passes the check and is written
outside of `/workspace` (`extractZip_escapes`).  `extractZip_below_iff` says that these are
the only ones.

`filepath` is the lexical `Lexical`.  The archive reader and what the operating system answers
are parameters: each call may succeed or fail, depending on those before it.
-/

namespace MatchBench.Fetcher

open List
open Capture (ascii)
open Lexical (Below Proper absolute climbs leading)

def slash : UInt8 := 47

def fullStop : UInt8 := 46

/-- `filepath.Join` -/
def join (root name : List UInt8) : List UInt8 := Lexical.join slash fullStop [root, name]

/-- `filepath.Dir` -/
def dir (path : List UInt8) : List UInt8 := Lexical.dir slash fullStop path

/-- An entry of an archive, with whether its mode bits are those of a directory. -/
structure File where
  name : List UInt8
  dirMode : Bool
  deriving DecidableEq, Repr

/-- `FileInfo().IsDir()` -/
def File.isDir (f : File) : Bool := f.dirMode || f.name.getLast? = some slash

/-! ### The check -/

inductive CheckError
  /-- "read zip: %w" -/
  | readZip (text : String)
  /-- "zip-slip: %q escapes destination" -/
  | zipSlip (name : List UInt8)
  deriving DecidableEq, Repr

def root : List UInt8 := ascii "/safe"

def checkFiles : List File → Except CheckError Unit
  | [] => .ok ()
  | f :: files =>
      let target := join root f.name
      if !(root ++ [slash]).isPrefixOf target && target != root then .error (.zipSlip f.name)
      else checkFiles files

def checkZipSlip (newReader : List UInt8 → Except String (List File)) (zipData : List UInt8) :
    Except CheckError Unit :=
  match newReader zipData with
  | .error text => .error (.readZip text)
  | .ok files => checkFiles files

/-! ### The extraction -/

/-- A call of the operating system that creates or writes. -/
inductive Call
  | mkdirAll (path : List UInt8) (perm : Nat)
  | writeFile (path data : List UInt8) (perm : Nat)
  deriving DecidableEq, Repr

/-- The paths that the call may create or write. -/
def Call.touched : Call → List (List UInt8)
  | .mkdirAll path _ => leading slash path
  | .writeFile path _ _ => [path]

structure Env where
  /-- Whether the call succeeds after those before it. -/
  succeeds : List Call → Call → Bool
  /-- The contents of an entry, if it can be opened and read. -/
  read : File → Option (List UInt8)

def Env.call (env : Env) (calls : List Call) (c : Call) : List Call × Bool :=
  (calls ++ [c], env.succeeds calls c)

def extractFile (env : Env) (destDir : List UInt8) (calls : List Call) (f : File) :
    List Call × Bool :=
  let target := join destDir f.name
  if f.isDir then env.call calls (.mkdirAll target 0o755)
  else
    match env.call calls (.mkdirAll (dir target) 0o755) with
    | (calls, false) => (calls, false)
    | (calls, true) =>
        match env.read f with
        | none => (calls, false)
        | some data => env.call calls (.writeFile target data 0o644)

def extractFiles (env : Env) (destDir : List UInt8) : List Call → List File → List Call × Bool
  | calls, [] => (calls, true)
  | calls, f :: files =>
      match extractFile env destDir calls f with
      | (calls, false) => (calls, false)
      | (calls, true) => extractFiles env destDir calls files

/-- The calls that are made, and whether all went well. -/
def extractZip (env : Env) (newReader : List UInt8 → Except String (List File))
    (zipData destDir : List UInt8) : List Call × Bool :=
  match newReader zipData with
  | .error _ => ([], false)
  | .ok files => extractFiles env destDir [] files

def workspace : List UInt8 := ascii "/workspace"

/-- What the extraction touches is the destination or lies below it. -/
def Contained (calls : List Call) : Prop :=
  ∀ c ∈ calls, ∀ p ∈ c.touched, Below slash workspace p

/-- The name leads out of the directory that it is joined to. -/
def File.Climbs (f : File) : Prop := climbs fullStop 0 (f.name.splitOn slash) = true

instance (f : File) : Decidable f.Climbs := inferInstanceAs (Decidable (_ = _))

/-! ### Where an entry goes -/

theorem proper_safe : Proper slash fullStop (ascii "safe") := by
  constructor <;> decide

theorem proper_workspace : Proper slash fullStop (ascii "workspace") := by
  constructor <;> decide

variable {f : File} {files : List File}

theorem join_of_not_climbs (h : ¬ f.Climbs) :
    ∃ es, (∀ e ∈ es, Proper slash fullStop e) ∧
      join workspace f.name = absolute slash (ascii "workspace" :: es) := by
  obtain ⟨es, hes, heq⟩ := Lexical.join_of_not_climbs (Bool.eq_false_of_not_eq_true h)
  exact ⟨es, hes, heq _ proper_workspace⟩

/-- An entry that climbs passes the check only if it goes to `/safe`. -/
theorem join_of_climbs (h : f.Climbs) (hsafe : Below slash root (join root f.name)) :
    ∃ es, (∀ e ∈ es, Proper slash fullStop e) ∧
      join workspace f.name = absolute slash (ascii "safe" :: es) := by
  obtain ⟨es, hes, heq⟩ := Lexical.join_of_climbs h
  have hroot : join root f.name = absolute slash es := heq _ proper_safe
  rw [hroot] at hsafe
  have hhead := (Lexical.below_absolute proper_safe fun e he => (hes e he).whole).mp hsafe
  cases es with
  | nil => cases hhead
  | cons e es =>
    obtain rfl := Option.some.inj hhead
    exact ⟨es, fun e he => hes e (.tail _ he), heq _ proper_workspace⟩

theorem checkFiles_eq_ok : checkFiles files = .ok () →
    ∀ f ∈ files, Below slash root (join root f.name) := by
  induction files with
  | nil => exact nofun
  | cons f files ih =>
    intro h f' hf'
    rw [checkFiles] at h
    split at h
    · exact absurd h (by simp)
    rename_i hok
    rcases mem_cons.mp hf' with rfl | hf'
    · rw [Bool.and_eq_true, not_and_or] at hok
      rcases hok with hok | hok
      · exact .inr (List.isPrefixOf_iff_prefix.mp (by simpa using hok))
      · exact .inl (by simpa using hok)
    · exact ih h f' hf'

/-! ### What is touched -/

theorem extractFile_calls (env : Env) (destDir : List UInt8) (calls : List Call) (f : File) :
    ∀ c ∈ (extractFile env destDir calls f).1, c ∈ calls ∨
      (∃ perm, c = .mkdirAll (join destDir f.name) perm) ∨
      (∃ perm, c = .mkdirAll (dir (join destDir f.name)) perm) ∨
      ∃ data perm, c = .writeFile (join destDir f.name) data perm := by
  have hcall : ∀ {calls : List Call} {c c' : Call}, c ∈ (env.call calls c').1 → c ∈ calls ∨ c = c' :=
    fun hc => (mem_append.mp hc).imp id mem_singleton.mp
  intro c hc
  rw [extractFile] at hc
  split at hc
  · exact (hcall hc).imp id fun h => .inl ⟨_, h⟩
  have hmk : ∀ {c}, c ∈ (env.call calls (.mkdirAll (dir (join destDir f.name)) 0o755)).1 →
      c ∈ calls ∨ ∃ perm, c = .mkdirAll (dir (join destDir f.name)) perm :=
    fun hc => (hcall hc).imp id fun h => ⟨_, h⟩
  generalize env.call calls (.mkdirAll (dir (join destDir f.name)) 0o755) = r at hc hmk
  obtain ⟨calls', ok⟩ := r
  cases ok with
  | false => exact (hmk hc).imp id fun h => .inr (.inl h)
  | true =>
    dsimp only at hc
    split at hc
    · exact (hmk hc).imp id fun h => .inr (.inl h)
    · rcases hcall hc with hc | hc
      · exact (hmk hc).imp id fun h => .inr (.inl h)
      · exact .inr (.inr (.inr ⟨_, _, hc⟩))

theorem contained_extractFile (env : Env) {calls : List Call} (hcalls : Contained calls)
    (hf : ¬ f.Climbs) : Contained (extractFile env workspace calls f).1 := by
  obtain ⟨es, hes, htarget⟩ := join_of_not_climbs hf
  have hall : ∀ e ∈ ascii "workspace" :: es, Proper slash fullStop e :=
    forall_mem_cons.mpr ⟨proper_workspace, hes⟩
  intro c hc p hp
  rcases extractFile_calls env workspace calls f c hc with
    hc | ⟨_, rfl⟩ | ⟨_, rfl⟩ | ⟨_, _, rfl⟩
  · exact hcalls c hc p hp
  · rw [Call.touched, htarget] at hp
    exact Lexical.below_of_mem_leading proper_workspace hall (.inr rfl) hp
  · rw [Call.touched, htarget, dir, Lexical.dir_absolute hall] at hp
    refine Lexical.below_of_mem_leading proper_workspace
      (fun e he => hall e (dropLast_subset _ he)) ?_ hp
    -- The directory of the destination itself has no element left.
    cases es with
    | nil => exact .inl rfl
    | cons e es => exact .inr rfl
  · rw [Call.touched, mem_singleton] at hp
    rw [hp, htarget]
    exact (Lexical.below_absolute proper_workspace fun e he => (hall e he).whole).mpr rfl

theorem contained_extractFiles (env : Env) : ∀ {calls : List Call},
    Contained calls → (∀ f ∈ files, ¬ f.Climbs) →
      Contained (extractFiles env workspace calls files).1 := by
  induction files with
  | nil => exact fun hcalls _ => hcalls
  | cons f files ih =>
    intro calls hcalls hfiles
    have hfile := contained_extractFile env hcalls (hfiles f (.head _))
    rw [extractFiles]
    generalize extractFile env workspace calls f = r at hfile
    obtain ⟨calls', ok⟩ := r
    cases ok with
    | false => exact hfile
    | true => exact ih hfile (fun f' hf' => hfiles f' (.tail _ hf'))

/-- Every call succeeds, and every entry can be read. -/
def Env.fine : Env := ⟨fun _ _ => true, fun _ => some []⟩

/-- The call with which an entry is created, when all goes well. -/
def File.created (f : File) (destDir : List UInt8) : Call :=
  if f.isDir then .mkdirAll (join destDir f.name) 0o755
  else .writeFile (join destDir f.name) [] 0o644

theorem extractFile_fine (destDir : List UInt8) (calls : List Call) (f : File) :
    ∃ more, extractFile Env.fine destDir calls f = (calls ++ more, true) ∧
      f.created destDir ∈ more := by
  rw [extractFile, File.created]
  split
  · exact ⟨_, rfl, mem_singleton.mpr rfl⟩
  refine ⟨[.mkdirAll (dir (join destDir f.name)) 0o755, .writeFile (join destDir f.name) [] 0o644],
    ?_, mem_cons_of_mem _ (mem_singleton.mpr rfl)⟩
  dsimp only [Env.call, Env.fine]
  rw [append_assoc]
  rfl

theorem extractFiles_fine (destDir : List UInt8) : ∀ (files : List File) (calls : List Call),
    ∃ more, extractFiles Env.fine destDir calls files = (calls ++ more, true) ∧
      ∀ f ∈ files, f.created destDir ∈ more := by
  intro files
  induction files with
  | nil =>
    intro calls
    refine ⟨[], ?_, nofun⟩
    rw [append_nil]
    rfl
  | cons f files ih =>
    intro calls
    obtain ⟨more, hmore, hf⟩ := extractFile_fine destDir calls f
    obtain ⟨more', hmore', hfiles⟩ := ih (calls ++ more)
    refine ⟨more ++ more', ?_, fun f' hf' => ?_⟩
    · rw [extractFiles, hmore, ← append_assoc]
      exact hmore'
    · rcases mem_cons.mp hf' with rfl | hf'
      · exact mem_append_left _ hf
      · exact mem_append_right _ (hfiles f' hf')

/-- **The check protects the extraction from all but the names that climb**: of an archive
that passes, every path that is touched is in `/workspace`, whatever the operating system
answers, if and only if no name leads out of its root. -/
theorem extractZip_below_iff (newReader : List UInt8 → Except String (List File))
    (zipData : List UInt8) (hcheck : checkZipSlip newReader zipData = .ok ()) :
    (∀ env, Contained (extractZip env newReader zipData workspace).1) ↔
      ∀ files, newReader zipData = .ok files → ∀ f ∈ files, ¬ f.Climbs := by
  rw [checkZipSlip] at hcheck
  simp only [extractZip]
  cases hread : newReader zipData with
  | error text =>
    rw [hread] at hcheck
    exact absurd hcheck (by simp)
  | ok files =>
    rw [hread] at hcheck
    constructor
    · intro h files' hfiles f hf hclimbs
      obtain rfl := Except.ok.inj hfiles
      obtain ⟨es, hes, htarget⟩ := join_of_climbs hclimbs (checkFiles_eq_ok hcheck f hf)
      have hall : ∀ e ∈ ascii "safe" :: es, Proper slash fullStop e :=
        forall_mem_cons.mpr ⟨proper_safe, hes⟩
      obtain ⟨more, hmore, hcreated⟩ := extractFiles_fine workspace files []
      have htouched : join workspace f.name ∈ (f.created workspace).touched := by
        rw [File.created]
        split
        · rw [Call.touched, htarget]
          exact (Lexical.mem_leading_absolute hall).mpr ⟨_, cons_ne_nil _ _, prefix_refl _, rfl⟩
        · exact mem_singleton.mpr rfl
      have hcontained := h Env.fine
      dsimp only at hcontained
      rw [hmore] at hcontained
      have hbelow := hcontained _ (hcreated f hf) _ htouched
      rw [htarget] at hbelow
      have hhead := (Lexical.below_absolute proper_workspace fun e he => (hall e he).whole).mp hbelow
      exact absurd (Option.some.inj hhead) (by decide)
    · intro h env
      exact contained_extractFiles env (nofun) (h files rfl)

/-- Names with dots, double separators and an absolute one, none of which climbs. -/
def tame : List File :=
  [⟨ascii "src//main.rs", false⟩, ⟨ascii "./a/../b/", false⟩, ⟨ascii "/etc/passwd", false⟩,
    ⟨ascii ".", true⟩]

theorem extractZip_below_tame :
    checkZipSlip (fun _ => .ok tame) [] = .ok () ∧
      ∀ env, Contained (extractZip env (fun _ => .ok tame) [] workspace).1 := by
  refine ⟨by decide +kernel, ?_⟩
  refine (extractZip_below_iff (fun _ => .ok tame) [] (by decide +kernel)).mpr fun files hfiles => ?_
  obtain rfl := Except.ok.inj hfiles
  decide +kernel

/-- A name that climbs out of its root and comes down in `/safe`. -/
def slipping : List File := [⟨ascii "../safe/x", false⟩]

/-- **A zip slip**: the entry passes the check and is written to `/safe/x`. -/
theorem extractZip_escapes :
    checkZipSlip (fun _ => .ok slipping) [] = .ok () ∧
      .writeFile (ascii "/safe/x") [] 0o644 ∈
        (extractZip Env.fine (fun _ => .ok slipping) [] workspace).1 ∧
      ¬ Contained (extractZip Env.fine (fun _ => .ok slipping) [] workspace).1 := by
  have hwritten : .writeFile (ascii "/safe/x") [] 0o644 ∈
      (extractZip Env.fine (fun _ => .ok slipping) [] workspace).1 := by decide +kernel
  refine ⟨by decide +kernel, hwritten, fun h => ?_⟩
  exact absurd (h _ hwritten _ (mem_singleton.mpr rfl)) (by decide +kernel)

end MatchBench.Fetcher
