import PiPlatform.Library.Dict
import PiPlatform.Library.StableSort
import PiPlatform.Library.System
import Mathlib.Data.String.Basic

/-! The store of captured payloads.

A payload is filed once, under the hash of its bytes, and the index on disk says what the store
knows. A file's name carries the first letters of the hash only; as long as those tell the payloads
apart, no file is ever written over (`payloads_kept`). -/
namespace PiPlatform.IdeRe.ArtifactStore

open Library

abbrev Bytes := List UInt8

/-- `sha256(data).hexdigest()[:16]` -/
structure HashBytes where
  hash : Bytes → String
  length_hash : ∀ data, (hash data).toList.length = 16

/-- `[A-Za-z0-9._-]` -/
def isPlain (c : Char) : Bool := c.isAlphanum || c = '.' || c = '_' || c = '-'

/-- Each run of other characters becomes one dash. -/
def dashed : Bool → List Char → List Char
  | _, [] => []
  | inRun, c :: cs =>
    if isPlain c then c :: dashed false cs
    else if inRun then dashed true cs
    else '-' :: dashed true cs

/-- `_safe(name)` -/
def safe (name : String) : List Char :=
  let stripped := (((dashed false name.toList).dropWhile (· = '-')).reverse.dropWhile
    (· = '-')).reverse
  if stripped.isEmpty then "artifact".toList else stripped

def extByKind (kind : String) : List Char :=
  if kind = "json" then "json".toList
  else if kind = "har" then "har".toList
  else if kind = "trace" then "json".toList
  else if kind = "text" then "txt".toList
  else "bin".toList

structure Path where
  phase : List Char
  fname : List Char
  deriving DecidableEq

def pathOf (phase agent name digest kind : String) : Path where
  phase := safe phase
  fname := (safe agent ++ "__".toList ++ safe name ++ "__".toList) ++ digest.toList.take 8 ++
    '.' :: extByKind kind

structure Entry where
  phase : String
  agent : String
  name : String
  kind : String
  size : Nat
  relPath : Path
  capturedAt : String

/-- The manifest in memory, the index on disk and the files. -/
structure Store where
  manifest : Dict String Entry
  index : Option (Dict String Entry)
  files : Dict Path Bytes

structure Payload (D : Type) where
  phase : String
  agent : String
  name : String
  data : D
  kind : String
  capturedAt : String

section Model
variable {D : Type} (hashing : HashBytes) (encode : D → String → Bytes)

/-- The manifest is written with its keys in order. -/
def Store.persistManifest (store : Store) : Store :=
  { store with index := some (Dict.ofList (sortBy Prod.fst store.manifest.items)) }

/-- A payload that the manifest does not have is written under its hash. -/
def Store.storePayload (store : Store) (payload : Payload D) : Store :=
  let encoded := encode payload.data payload.kind
  let digest := hashing.hash encoded
  if store.manifest.contains digest then store
  else
    let relPath := pathOf payload.phase payload.agent payload.name digest payload.kind
    Store.persistManifest
      { store with
        files := store.files.set relPath encoded
        manifest := store.manifest.set digest
          { phase := payload.phase
            agent := payload.agent
            name := payload.name
            kind := payload.kind
            size := encoded.length
            relPath := relPath
            capturedAt := payload.capturedAt } }

/-- A new store over the same directory. -/
def Store.loadManifest (store : Store) : Store :=
  { store with manifest := store.index.getD Dict.empty }

inductive Action (D : Type) where
  | storePayload (payload : Payload D)
  | loadManifest

def stores : System Store (Action D) where
  initial := ⟨Dict.empty, none, Dict.empty⟩
  step store
    | .storePayload payload => store.storePayload hashing encode payload
    | .loadManifest => store.loadManifest

/-- The first letters of a new payload's hash tell it apart from those that are stored. -/
def Distinct (store : Store) : Action D → Prop
  | .storePayload payload => ∀ digest ∈ store.manifest.items.map Prod.fst,
      digest.toList.take 8 =
        (hashing.hash (encode payload.data payload.kind)).toList.take 8 →
      digest = hashing.hash (encode payload.data payload.kind)
  | .loadManifest => True

instance (store : Store) (action : Action D) : Decidable (Distinct hashing encode store action) :=
  match action with
  | .storePayload payload =>
    inferInstanceAs (Decidable (∀ digest ∈ store.manifest.items.map Prod.fst,
      digest.toList.take 8 =
        (hashing.hash (encode payload.data payload.kind)).toList.take 8 →
      digest = hashing.hash (encode payload.data payload.kind)))
  | .loadManifest => inferInstanceAs (Decidable True)

end Model

/-! ### Names -/

theorem dot_not_mem_extByKind (kind : String) : '.' ∉ extByKind kind := by
  rw [extByKind]
  split_ifs <;> decide

/-- Whatever stands in front of it, a name carries the letters of the hash. -/
theorem take_of_fname {front front' letters letters' ext ext' : List Char}
    (hext : '.' ∉ ext) (hext' : '.' ∉ ext') (hlength : letters.length = letters'.length)
    (h : front ++ letters ++ '.' :: ext = front' ++ letters' ++ '.' :: ext') :
    letters = letters' := by
  obtain ⟨hfront, -⟩ := append_cons_cancel hext hext' h
  exact (List.append_inj' hfront hlength).2

theorem take_of_pathOf (hashing : HashBytes)
    {phase agent name kind phase' agent' name' kind' : String} {data data' : Bytes}
    (h : pathOf phase agent name (hashing.hash data) kind =
      pathOf phase' agent' name' (hashing.hash data') kind') :
    (hashing.hash data).toList.take 8 = (hashing.hash data').toList.take 8 := by
  refine take_of_fname (dot_not_mem_extByKind kind) (dot_not_mem_extByKind kind') ?_
    (congrArg Path.fname h)
  rw [List.length_take, List.length_take, hashing.length_hash, hashing.length_hash]

/-! ### What a store keeps -/

section Kept
variable {D : Type} (hashing : HashBytes) {encode : D → String → Bytes} {store : Store}

/-- Each entry's file holds bytes with its hash, and the index has all that is in the manifest. -/
structure Sound (store : Store) : Prop where
  filed : ∀ digest entry, store.manifest.get? digest = some entry → ∃ data,
    store.files.get? entry.relPath = some data ∧ hashing.hash data = digest ∧
      data.length = entry.size ∧
      entry.relPath = pathOf entry.phase entry.agent entry.name digest entry.kind
  indexed : ∀ digest, (store.index.getD Dict.empty).get? digest = store.manifest.get? digest

/-- What was in the manifest stays there, and its file is not written over. -/
def Kept (store later : Store) : Prop :=
  ∀ digest entry, store.manifest.get? digest = some entry →
    later.manifest.get? digest = some entry ∧
      later.files.get? entry.relPath = store.files.get? entry.relPath

theorem get?_persisted (d : Dict String Entry) (k : String) :
    (Dict.ofList (sortBy Prod.fst d.items)).get? k = d.get? k := by
  have hperm := (stableSort_sortBy Prod.fst d.items).perm
  have hnodup : ((sortBy Prod.fst d.items).map Prod.fst).Nodup :=
    (hperm.map Prod.fst).nodup_iff.mpr d.nodup
  rw [Dict.get?, Dict.ofList]
  dsimp only
  have hitems : setItems [] (sortBy Prod.fst d.items) = sortBy Prod.fst d.items :=
    setItems_of_nodup _ (by rwa [List.nil_append])
  rw [hitems]
  exact lookupItem_perm hnodup hperm k

/-- Filing a new payload touches no file of the others. -/
theorem Sound.apart (h : Sound hashing store) {payload : Payload D}
    (hdistinct : Distinct hashing encode store (.storePayload payload))
    (hnew : ¬ store.manifest.contains (hashing.hash (encode payload.data payload.kind)) = true)
    {digest : String} {entry : Entry} (hentry : store.manifest.get? digest = some entry) :
    pathOf payload.phase payload.agent payload.name
      (hashing.hash (encode payload.data payload.kind)) payload.kind ≠ entry.relPath := by
  obtain ⟨data, -, rfl, -, hpath⟩ := h.filed digest entry hentry
  intro heq
  rw [hpath] at heq
  have hcontains := Dict.contains_iff.mpr ⟨entry, hentry⟩
  exact hnew (hdistinct _ (Dict.contains_iff_mem.mp hcontains) (take_of_pathOf hashing heq.symm) ▸
    hcontains)

theorem kept_step (h : Sound hashing store) (action : Action D)
    (hdistinct : Distinct hashing encode store action) :
    Kept store ((stores hashing encode).step store action) := by
  intro digest entry hentry
  cases action with
  | loadManifest => exact ⟨(h.indexed digest).trans hentry, rfl⟩
  | storePayload payload =>
    show (store.storePayload hashing encode payload).manifest.get? digest = _ ∧
      (store.storePayload hashing encode payload).files.get? _ = _
    rw [Store.storePayload]
    dsimp only
    split_ifs with hknown
    · exact ⟨hentry, rfl⟩
    · have hne : hashing.hash (encode payload.data payload.kind) ≠ digest := by
        rintro rfl
        exact hknown (Dict.contains_iff.mpr ⟨entry, hentry⟩)
      exact ⟨(Dict.get?_set_ne hne _ _).trans hentry,
        Dict.get?_set_ne (h.apart hashing hdistinct hknown hentry) _ _⟩

theorem sound_step (h : Sound hashing store) (action : Action D)
    (hdistinct : Distinct hashing encode store action) :
    Sound hashing ((stores hashing encode).step store action) := by
  cases action with
  | loadManifest =>
    exact ⟨fun digest entry hentry => h.filed digest entry ((h.indexed digest).symm.trans hentry),
      fun digest => rfl⟩
  | storePayload payload =>
    have hkept := kept_step hashing h (.storePayload payload) hdistinct
    show Sound hashing (store.storePayload hashing encode payload)
    rw [Store.storePayload]
    dsimp only
    split_ifs with hknown
    · exact h
    · refine ⟨fun digest entry hentry => ?_, fun digest => get?_persisted _ digest⟩
      by_cases heq : hashing.hash (encode payload.data payload.kind) = digest
      · subst heq
        obtain rfl := Option.some_inj.mp ((Dict.get?_set_self _ _ _).symm.trans hentry)
        exact ⟨_, Dict.get?_set_self _ _ _, rfl, rfl, rfl⟩
      · have hold := (Dict.get?_set_ne heq _ _).symm.trans hentry
        obtain ⟨data, hdata, hhash⟩ := h.filed digest entry hold
        exact ⟨data, (Dict.get?_set_ne (h.apart hashing hdistinct hknown hold) _ _).trans hdata,
          hhash⟩

theorem sound_initial : Sound hashing (stores hashing encode).initial :=
  { filed := fun _ _ h => nomatch h
    indexed := fun _ => rfl }

/-- In every run of calls and new stores in which the first letters of the hashes tell the payloads
apart, each entry's file holds bytes with its hash, and no entry and no file of one ever changes:
a payload that comes again keeps its first provenance. -/
theorem payloads_kept (hashing : HashBytes) (encode : D → String → Bytes)
    (actions more : List (Action D))
    (h : (stores hashing encode).Admits (Distinct hashing encode) (actions ++ more)) :
    Sound hashing ((stores hashing encode).after (actions ++ more)) ∧
      Kept ((stores hashing encode).after actions)
        ((stores hashing encode).after (actions ++ more)) := by
  constructor
  · exact (stores hashing encode).invariant_under (Distinct hashing encode) (Sound hashing)
      (sound_initial hashing) (fun s a ha hs => sound_step hashing hs a ha) _ h
  · refine (stores hashing encode).kept_under (Distinct hashing encode) (Sound hashing) Kept
      (sound_initial hashing) (fun s a ha hs => sound_step hashing hs a ha)
      (fun s digest entry hentry => ⟨hentry, rfl⟩) ?_
      (fun s a ha hs => kept_step hashing hs a ha) actions more h
    intro s t u hst htu digest entry hentry
    obtain ⟨hmanifest, hfile⟩ := hst digest entry hentry
    obtain ⟨hmanifest', hfile'⟩ := htu digest entry hmanifest
    exact ⟨hmanifest', hfile'.trans hfile⟩

end Kept

/-! #### Two payloads, and one that comes again -/

/-- A hash that counts. -/
def counted : HashBytes where
  hash data := String.ofList (List.replicate 16 (Char.ofNat (97 + data.length)))
  length_hash data := by rw [String.toList_ofList, List.length_replicate]

def capture (name : String) (data : Bytes) : Action Bytes :=
  .storePayload ⟨"static", "ghidra", name, data, "binary", "today"⟩

theorem payloads_kept_again :
    Sound counted ((stores counted fun data _ => data).after
      ([capture "strings" [1], .loadManifest] ++ [capture "dump" [1, 2], capture "again" [1]])) ∧
    Kept ((stores counted fun data _ => data).after [capture "strings" [1], .loadManifest])
      ((stores counted fun data _ => data).after
        ([capture "strings" [1], .loadManifest] ++ [capture "dump" [1, 2], capture "again" [1]])) :=
  payloads_kept counted (fun data _ => data) [capture "strings" [1], .loadManifest]
    [capture "dump" [1, 2], capture "again" [1]]
    ((stores counted fun data _ => data).admits_of_checks (by decide +kernel))

end PiPlatform.IdeRe.ArtifactStore
