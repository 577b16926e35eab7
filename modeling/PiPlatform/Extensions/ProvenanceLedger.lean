import Mathlib.Logic.Function.Basic
import PiPlatform.EventFabric.Bus.Reproducible
import PiPlatform.Library.Calendar
import PiPlatform.Library.Python.Plain
import PiPlatform.Library.StableSort

/-! The receipts of extensions and their files.

In memory receipts stand in the order they were appended. Each is written to a file of its id's
name, and what is loaded comes in the order of the times, those of one time in the order of the
names. Ids are made from what was executed and repeat when it is executed again, and then the
later receipt takes the file of the earlier. `survives_iff`: the ledger is what was appended, all
along a run, exactly when at each restart the receipts have files of their own and the two orders
agree. -/
namespace PiPlatform.Extensions

open Library Library.Json Library.Python Library.Calendar EventFabric

structure ExtensionExecutionReceipt where
  receiptId : String
  extensionId : String
  packageHash : String
  workerContractVersion : String
  executionTimestamp : Instant
  executionDurationMs : Int
  outputHash : String
  deterministicFingerprint : String
  replayLineage : List String
  previousReceiptHash : String
  receiptHash : String
  deriving DecidableEq

namespace ExtensionExecutionReceipt
variable (H : Digest) (r : ExtensionExecutionReceipt)

/-- Without its own hash, the timestamp and the duration. -/
def computeHash : String :=
  let text (s : String) : Document Literal := .str (ofString s)
  let payload : Document Literal := .obj
    [(ofString "deterministic_fingerprint", text r.deterministicFingerprint),
      (ofString "extension_id", text r.extensionId),
      (ofString "output_hash", text r.outputHash),
      (ofString "package_hash", text r.packageHash),
      (ofString "previous_receipt_hash", text r.previousReceiptHash),
      (ofString "receipt_id", text r.receiptId),
      (ofString "replay_lineage", .arr (r.replayLineage.map text)),
      (ofString "worker_contract_version", text r.workerContractVersion)]
  H.hex (String.ofList (payload.render .compact))

/-- `model_dump`, the timestamp as `json.dump` writes it by `default=str`. -/
def dump : List (String × Plain) :=
  [("receipt_id", .str r.receiptId),
    ("extension_id", .str r.extensionId),
    ("package_hash", .str r.packageHash),
    ("worker_contract_version", .str r.workerContractVersion),
    ("execution_timestamp", .str (String.ofList (strText r.executionTimestamp))),
    ("execution_duration_ms", .int r.executionDurationMs),
    ("output_hash", .str r.outputHash),
    ("deterministic_fingerprint", .str r.deterministicFingerprint),
    ("replay_lineage", .list (r.replayLineage.map .str)),
    ("previous_receipt_hash", .str r.previousReceiptHash),
    ("receipt_hash", .str r.receiptHash)]

end ExtensionExecutionReceipt

def text? : Plain → Option String
  | .str s => some s
  | _ => none

def int? : Plain → Option Int
  | .int i => some i
  | _ => none

def texts? : Plain → Option (List String)
  | .list xs => xs.mapM text?
  | _ => none

/-- How pydantic reads a `datetime` from a text. -/
abbrev ParseTime := String → Option Instant

/-- `ExtensionExecutionReceipt(**data)`, of data with all its fields; none where it raises. -/
def ExtensionExecutionReceipt.parse (parseTime : ParseTime) (data : List (String × Plain)) :
    Option ExtensionExecutionReceipt := do
  let field (name : String) := lookupItem name data
  return {
    receiptId := ← (← field "receipt_id") |> text?
    extensionId := ← (← field "extension_id") |> text?
    packageHash := ← (← field "package_hash") |> text?
    workerContractVersion := ← (← field "worker_contract_version") |> text?
    executionTimestamp := ← (← (← field "execution_timestamp") |> text?) |> parseTime
    executionDurationMs := ← (← field "execution_duration_ms") |> int?
    outputHash := ← (← field "output_hash") |> text?
    deterministicFingerprint := ← (← field "deterministic_fingerprint") |> text?
    replayLineage := ← (← field "replay_lineage") |> texts?
    previousReceiptHash := ← (← field "previous_receipt_hash") |> text?
    receiptHash := ← (← field "receipt_hash") |> text? }

theorem texts?_map (texts : List String) : texts? (.list (texts.map .str)) = some texts := by
  rw [texts?, List.mapM_map]
  exact (mapM_eq_map fun _ _ => rfl).trans (congrArg some texts.map_id')

theorem ExtensionExecutionReceipt.parse_dump {parseTime : ParseTime}
    (hparse : ∀ t, parseTime (String.ofList (strText t)) = some t)
    (r : ExtensionExecutionReceipt) : parse parseTime r.dump = some r := by
  simp [parse, dump, lookupItem, text?, int?, texts?_map, hparse]

/-! ### The ledger -/

def receiptLinks : Links ExtensionExecutionReceipt String where
  place _ := 0
  previous := ExtensionExecutionReceipt.previousReceiptHash
  digest := ExtensionExecutionReceipt.receiptHash

/-- The files of the directory, by their names without `.json`, each as `json.load` has it. -/
abbrev Directory := Dict String (List (String × Plain))

structure ExtensionProvenanceLedger where
  receipts : List ExtensionExecutionReceipt
  ledgerDir : Directory

/-- Of the path `{receipt_id}.json` below the directory: the name, without `.json`, of the file
of the directory that it opens. None where it opens another file, or none: an id with a slash. -/
abbrev Opens := String → Option String

namespace ExtensionProvenanceLedger
variable (H : Digest) (opens : Opens) (parseTime : ParseTime)

/-- The receipt is in memory before its file is opened. -/
def appendReceipt (l : ExtensionProvenanceLedger) (receipt : ExtensionExecutionReceipt) :
    ExtensionExecutionReceipt × ExtensionProvenanceLedger :=
  let prevHash := l.receipts.getLast?.elim "" (·.receiptHash)
  let receipt := { receipt with previousReceiptHash := prevHash }
  let receipt := { receipt with receiptHash := receipt.computeHash H }
  (receipt,
    { receipts := l.receipts ++ [receipt]
      ledgerDir :=
        match opens receipt.receiptId with
        | some name => l.ledgerDir.set name receipt.dump
        | none => l.ledgerDir })

def verifyChain (l : ExtensionProvenanceLedger) : Bool :=
  receiptLinks.verify (·.computeHash H) "" l.receipts

/-- `sorted(self.ledger_dir.glob("*.json"))` -/
def paths (directory : Directory) : List (String × List (String × Plain)) :=
  sortBy (fun file => file.1 ++ ".json") directory.items

/-- None where a file is not a receipt's. -/
def loadAll (l : ExtensionProvenanceLedger) : Option ExtensionProvenanceLedger := do
  let receipts ← (paths l.ledgerDir).mapM fun file =>
    ExtensionExecutionReceipt.parse parseTime file.2
  return { l with receipts := sortBy (·.executionTimestamp) receipts }

end ExtensionProvenanceLedger

inductive LedgerCall where
  | append (receipt : ExtensionExecutionReceipt)
  /-- A new object on the same directory, and `load_all`. -/
  | restart

/-- The ledger, and the receipts that have been appended, as they were. -/
structure LedgerHistory where
  ledger : ExtensionProvenanceLedger
  appended : List ExtensionExecutionReceipt

section Runs
variable (H : Digest) (opens : Opens) (parseTime : ParseTime)

def LedgerHistory.step (h : LedgerHistory) : LedgerCall → LedgerHistory
  | .append receipt =>
    let (appended, ledger) := h.ledger.appendReceipt H opens receipt
    ⟨ledger, h.appended ++ [appended]⟩
  | .restart =>
    let ledger : ExtensionProvenanceLedger := ⟨[], h.ledger.ledgerDir⟩
    ⟨(ledger.loadAll parseTime).getD ledger, h.appended⟩

/-- From an empty directory on. -/
def ledgers : System LedgerHistory LedgerCall where
  initial := ⟨⟨[], .empty⟩, []⟩
  step := LedgerHistory.step H opens parseTime

/-- The ledger is what was appended, and its chain verifies. -/
structure Survives (h : LedgerHistory) : Prop where
  restored : h.ledger.receipts = h.appended
  verified : h.ledger.verifyChain H = true

/-- The first time is the earlier, or it is the same and the first file's name is the smaller. -/
def Earlier (a b : ExtensionExecutionReceipt) : Prop :=
  a.executionTimestamp < b.executionTimestamp ∨ a.executionTimestamp = b.executionTimestamp ∧
    ∃ name name', opens a.receiptId = some name ∧ opens b.receiptId = some name' ∧
      name ++ ".json" < name' ++ ".json"

/-- Every receipt has a file, no two have one file, and the files are in order. -/
structure Restorable (receipts : List ExtensionExecutionReceipt) : Prop where
  filed : ∀ r ∈ receipts, opens r.receiptId ≠ none
  distinct : (receipts.map fun r => opens r.receiptId).Nodup
  ordered : receipts.Pairwise (Earlier opens)

/-- A restart finds what was appended so far restorable. -/
def Durable (h : LedgerHistory) : LedgerCall → Prop
  | .append _ => True
  | .restart => Restorable opens h.appended

end Runs

section Proofs
variable {H : Digest} {opens : Opens} {parseTime : ParseTime} {h : LedgerHistory}
  {receipts : List ExtensionExecutionReceipt}

/-! ### Files -/

/-- The last receipt whose file has the name. -/
def lastNamed (opens : Opens) (receipts : List ExtensionExecutionReceipt) (name : String) :
    Option ExtensionExecutionReceipt :=
  (receipts.filter fun r => opens r.receiptId = some name).getLast?

theorem lastNamed_snoc (receipts : List ExtensionExecutionReceipt) (r : ExtensionExecutionReceipt)
    (name : String) : lastNamed opens (receipts ++ [r]) name =
      if opens r.receiptId = some name then some r else lastNamed opens receipts name := by
  rw [lastNamed, List.filter_append]
  split_ifs with hname
  · simp [hname]
  · simp [hname, lastNamed]

theorem mem_of_lastNamed {name : String}
    {r : ExtensionExecutionReceipt} (hr : lastNamed opens receipts name = some r) :
    r ∈ receipts ∧ opens r.receiptId = some name := by
  have hmem := List.mem_filter.mp (List.mem_of_getLast? hr)
  exact ⟨hmem.1, of_decide_eq_true hmem.2⟩

theorem lastNamed_of_mem {name : String}
    {r : ExtensionExecutionReceipt} (hr : r ∈ receipts) (hname : opens r.receiptId = some name) :
    ∃ last, lastNamed opens receipts name = some last := by
  refine Option.ne_none_iff_exists'.mp fun hnone => ?_
  have hempty := List.getLast?_eq_none_iff.mp hnone
  exact List.ne_nil_of_mem (List.mem_filter.mpr ⟨hr, decide_eq_true hname⟩) hempty

/-- What every run keeps whose restarts have been durable. -/
structure Kept (H : Digest) (opens : Opens) (h : LedgerHistory) : Prop where
  restored : h.ledger.receipts = h.appended
  verified : receiptLinks.verify (·.computeHash H) "" h.appended = true
  files : ∀ name, h.ledger.ledgerDir.get? name = (lastNamed opens h.appended name).map (·.dump)

theorem Kept.survives (hkept : Kept H opens h) : Survives H h where
  restored := hkept.restored
  verified := by
    rw [ExtensionProvenanceLedger.verifyChain, hkept.restored]
    exact hkept.verified

theorem Kept.append (parseTime : ParseTime) (hkept : Kept H opens h)
    (receipt : ExtensionExecutionReceipt) :
    Kept H opens (h.step H opens parseTime (.append receipt)) := by
  have hprev : h.ledger.receipts.getLast?.elim "" (·.receiptHash) =
      receiptLinks.lastDigest "" h.appended := by
    rw [hkept.restored, Links.lastDigest]
    cases h.appended.getLast? <;> rfl
  refine ⟨?_, Links.verify_snoc hkept.verified hprev rfl, fun name => ?_⟩
  · exact congrArg (· ++ [_]) hkept.restored
  · show Dict.get? (match opens receipt.receiptId with
      | some name => h.ledger.ledgerDir.set name _
      | none => h.ledger.ledgerDir) name = (lastNamed opens (h.appended ++ [_]) name).map _
    rw [lastNamed_snoc]
    cases hopens : opens receipt.receiptId with
    | none => simp [hkept.files]
    | some name' =>
      rw [Dict.get?_set, hkept.files]
      simp only [Option.some.injEq]
      split_ifs <;> rfl

/-! ### Restarts -/

/-- The names of the files, in order. -/
def names (directory : Directory) : List String :=
  (ExtensionProvenanceLedger.paths directory).map Prod.fst

theorem paths_sorted (directory : Directory) :
    StableSort (fun file : String × List (String × Plain) => file.1 ++ ".json") directory.items
      (ExtensionProvenanceLedger.paths directory) :=
  stableSort_sortBy _ _

theorem mem_names {directory : Directory} {name : String} :
    name ∈ names directory ↔ (directory.get? name).isSome = true := by
  rw [names, ((paths_sorted directory).perm.map Prod.fst).mem_iff, Option.isSome_iff_exists,
    List.mem_map]
  constructor
  · rintro ⟨⟨name, data⟩, hmem, rfl⟩
    exact ⟨data, directory.mem_items.mp hmem⟩
  · rintro ⟨data, hdata⟩
    exact ⟨(name, data), directory.mem_items.mpr hdata, rfl⟩

theorem names_pairwise (directory : Directory) :
    (names directory).Pairwise fun name name' => name ++ ".json" < name' ++ ".json" := by
  have hsorted := paths_sorted directory
  have hle : (names directory).Pairwise fun name name' => name ++ ".json" ≤ name' ++ ".json" :=
    List.pairwise_map.mpr hsorted.sorted
  have hnodup : (names directory).Nodup :=
    (hsorted.perm.map Prod.fst).nodup_iff.mpr directory.nodup
  refine (hle.and hnodup).imp fun ⟨hle, hne⟩ => lt_of_le_of_ne hle fun heq => hne ?_
  have hchars := congrArg String.toList heq
  rw [String.toList_append, String.toList_append] at hchars
  exact String.toList_inj.mp (List.append_cancel_right hchars)

/-- What a restart has: of each file the receipt written last. -/
theorem Kept.loadAll (hparse : ∀ t, parseTime (String.ofList (strText t)) = some t)
    (hkept : Kept H opens h) : (h.step H opens parseTime .restart).ledger =
      ⟨sortBy (·.executionTimestamp)
        ((names h.ledger.ledgerDir).filterMap (lastNamed opens h.appended)),
        h.ledger.ledgerDir⟩ := by
  let files := ExtensionProvenanceLedger.paths h.ledger.ledgerDir
  have hread : ∀ file ∈ files, ∃ r, lastNamed opens h.appended file.1 = some r ∧
      ExtensionExecutionReceipt.parse parseTime file.2 = some r := by
    rintro ⟨name, data⟩ hfile
    have hdata := h.ledger.ledgerDir.mem_items.mp ((paths_sorted _).mem_iff.mp hfile)
    rw [hkept.files] at hdata
    obtain ⟨r, hr, rfl⟩ := Option.map_eq_some_iff.mp hdata
    exact ⟨r, hr, ExtensionExecutionReceipt.parse_dump hparse r⟩
  have hloaded : (files.mapM fun file => ExtensionExecutionReceipt.parse parseTime file.2) =
      some ((names h.ledger.ledgerDir).filterMap (lastNamed opens h.appended)) := by
    rw [mapM_eq_filterMap fun file hfile => (hread file hfile).imp fun _ hr => hr.2, names,
      List.filterMap_map]
    refine congrArg some (List.filterMap_congr fun file hfile => ?_)
    obtain ⟨r, hr, hparsed⟩ := hread file hfile
    rw [Function.comp_apply, hr, hparsed]
  show (ExtensionProvenanceLedger.loadAll parseTime ⟨[], h.ledger.ledgerDir⟩).getD _ = _
  rw [ExtensionProvenanceLedger.loadAll, hloaded]
  rfl

theorem Earlier.asymm {a b : ExtensionExecutionReceipt} (hab : Earlier opens a b) :
    ¬ Earlier opens b a := by
  rcases hab with hlt | ⟨heq, name, name', ha, hb, hlt⟩
  · rintro (hlt' | ⟨heq', -⟩)
    · exact absurd (hlt.trans hlt') (lt_irrefl _)
    · exact absurd heq' hlt.ne'
  · rintro (hlt' | ⟨-, m, m', hb', ha', hlt'⟩)
    · exact absurd heq hlt'.ne'
    · rw [ha, Option.some.injEq] at ha'
      rw [hb, Option.some.injEq] at hb'
      rw [ha', hb'] at hlt
      exact absurd (hlt.trans hlt') (lt_irrefl _)

/-- A restart has what was appended exactly when that is restorable. -/
theorem loaded_eq_iff (hkept : Kept H opens h) :
    sortBy (·.executionTimestamp)
        ((names h.ledger.ledgerDir).filterMap (lastNamed opens h.appended)) = h.appended ↔
      Restorable opens h.appended := by
  let loaded := (names h.ledger.ledgerDir).filterMap (lastNamed opens h.appended)
  have hsorted := stableSort_sortBy (·.executionTimestamp) loaded
  have hloaded : ∀ r, r ∈ loaded ↔ ∃ name, lastNamed opens h.appended name = some r := by
    intro r
    rw [List.mem_filterMap]
    refine exists_congr fun name => and_iff_right_of_imp fun hr => ?_
    rw [mem_names, hkept.files, hr]
    rfl
  have hnamed : loaded.Pairwise fun a b => ∃ name name', opens a.receiptId = some name ∧
      opens b.receiptId = some name' ∧ name ++ ".json" < name' ++ ".json" :=
    List.pairwise_filterMap.mpr ((names_pairwise h.ledger.ledgerDir).imp fun hlt a ha b hb =>
      ⟨_, _, (mem_of_lastNamed ha).2, (mem_of_lastNamed hb).2, hlt⟩)
  have hearlier : (sortBy (·.executionTimestamp) loaded).Pairwise (Earlier opens) :=
    hsorted.pairwise_lex hnamed
  have hdistinct : (loaded.map fun r => opens r.receiptId).Nodup := by
    refine List.pairwise_map.mpr (hnamed.imp ?_)
    rintro a b ⟨name, name', ha, hb, hlt⟩ heq
    rw [ha, hb, Option.some.injEq] at heq
    rw [heq] at hlt
    exact lt_irrefl _ hlt
  constructor
  · intro heq
    rw [← heq]
    refine ⟨fun r hr => ?_, ?_, hearlier⟩
    · obtain ⟨name, hr⟩ := (hloaded r).mp (hsorted.mem_iff.mp hr)
      rw [(mem_of_lastNamed hr).2]
      exact Option.some_ne_none name
    · exact (hsorted.perm.map _).nodup_iff.mpr hdistinct
  · intro hrestorable
    have hperm : loaded.Perm h.appended := by
      refine (List.perm_ext_iff_of_nodup (List.Nodup.of_map _ hdistinct)
        (List.Nodup.of_map _ hrestorable.distinct)).mpr fun r => ?_
      rw [hloaded]
      constructor
      · rintro ⟨name, hr⟩
        exact (mem_of_lastNamed hr).1
      · intro hr
        obtain ⟨name, hname⟩ := Option.ne_none_iff_exists'.mp (hrestorable.filed r hr)
        obtain ⟨last, hlast⟩ := lastNamed_of_mem hr hname
        obtain ⟨hmem, hsame⟩ := mem_of_lastNamed hlast
        have heq : last = r :=
          List.inj_on_of_nodup_map hrestorable.distinct hmem hr (hsame.trans hname.symm)
        exact ⟨name, heq ▸ hlast⟩
    exact (hsorted.perm.trans hperm).eq_of_pairwise
      (fun a b _ _ hab hba => absurd hba hab.asymm) hearlier hrestorable.ordered

theorem Kept.restart (hparse : ∀ t, parseTime (String.ofList (strText t)) = some t)
    (hkept : Kept H opens h) (hrestorable : Restorable opens h.appended) :
    Kept H opens (h.step H opens parseTime .restart) := by
  have hledger := hkept.loadAll hparse
  rw [(loaded_eq_iff hkept).mpr hrestorable] at hledger
  refine ⟨?_, hkept.verified, fun name => ?_⟩
  · rw [hledger]
    rfl
  · rw [hledger]
    exact hkept.files name

end Proofs

/-- All along a run the ledger is what was appended and verifies, exactly when each restart
finds receipts with files of their own, in the order of their times and names. -/
theorem survives_iff (H : Digest) (opens : Opens) (parseTime : ParseTime)
    (hparse : ∀ t, parseTime (String.ofList (strText t)) = some t) (acts : List LedgerCall) :
    (ledgers H opens parseTime).Always (Survives H) acts ↔
      (ledgers H opens parseTime).Admits (Durable opens) acts := by
  have hinitial : Kept H opens (ledgers H opens parseTime).initial :=
    ⟨rfl, rfl, fun _ => rfl⟩
  refine System.always_iff_admits _ (Durable opens) (Kept H opens) (Survives H) hinitial
    (fun h call hdurable hkept => ?_) (fun h hkept => hkept.survives)
    (fun h call hkept hnot hsurvives => ?_) acts
  · cases call with
    | append receipt => exact hkept.append parseTime receipt
    | restart => exact hkept.restart hparse hdurable
  · cases call with
    | append receipt => exact hnot trivial
    | restart =>
      have hrestored : (h.step H opens parseTime .restart).ledger.receipts = h.appended :=
        hsurvives.restored
      rw [hkept.loadAll hparse] at hrestored
      exact hnot ((loaded_eq_iff hkept).mp hrestored)

/-! ### Executed again -/

/-- A path of more than one part is not of the directory. -/
def plainNames : Opens := fun id => if '/' ∈ id.toList then none else some id

noncomputable def parseStr : ParseTime := Function.partialInv fun t => String.ofList (strText t)

theorem parseStr_strText (t : Instant) : parseStr (String.ofList (strText t)) = some t :=
  Function.partialInv_left (fun _ _ h => strText_injective (String.ofList_injective h)) t

/-- An execution, the same but for its time. -/
def execution (t : Instant) : ExtensionExecutionReceipt where
  receiptId := "rcpt_ext1_0123456789ab"
  extensionId := "ext1"
  packageHash := "hash1"
  workerContractVersion := "1.0.0"
  executionTimestamp := t
  executionDurationMs := 100
  outputHash := "out1"
  deterministicFingerprint := "out1"
  replayLineage := ["ext1"]
  previousReceiptHash := ""
  receiptHash := ""

def firstTime : Instant := ⟨0, maxInstant_pos⟩

def laterTime : Instant := ⟨1, by decide⟩

/-- A restart between two executions. -/
theorem survives_execution :
    (ledgers prefixDigest plainNames parseStr).Always (Survives prefixDigest)
        [.append (execution firstTime), .restart, .append (execution laterTime)] := by
  refine (survives_iff prefixDigest plainNames parseStr parseStr_strText _).mpr ?_
  intro before a behind heq
  match before, heq with
  | [], heq => cases heq; trivial
  | [_], heq => cases heq; exact ⟨by decide +kernel, List.nodup_singleton _,
      List.pairwise_singleton ..⟩
  | [_, _], heq => cases heq; trivial
  | _ :: _ :: _ :: _, heq => simp at heq

/-- Executed again later: one receipt is left after the restart. -/
theorem repeated_not_survives :
    firstTime ≤ laterTime ∧ ¬ (ledgers prefixDigest plainNames parseStr).Always
      (Survives prefixDigest)
        [.append (execution firstTime), .append (execution laterTime), .restart] := by
  refine ⟨Nat.zero_le 1, fun halways => ?_⟩
  have hinitial : Kept prefixDigest plainNames (ledgers prefixDigest plainNames parseStr).initial :=
    ⟨rfl, rfl, fun _ => rfl⟩
  have hkept := (hinitial.append parseStr (execution firstTime)).append parseStr
    (execution laterTime)
  have hrestored := (halways _ [] (List.append_nil _).symm).restored
  have hledger := hkept.loadAll parseStr_strText
  have hloaded := (congrArg ExtensionProvenanceLedger.receipts hledger).symm.trans hrestored
  have hdistinct := ((loaded_eq_iff hkept).mp hloaded).distinct
  exact absurd hdistinct (by decide +kernel)

end PiPlatform.Extensions
