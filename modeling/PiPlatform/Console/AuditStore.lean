import PiPlatform.Library.Json.Printable
import PiPlatform.Library.Python.Lines
import PiPlatform.Library.Python.AnyValue
import PiPlatform.Library.ReverseRead
import PiPlatform.Production.RateWindows

/-! The console's audit log, a file of JSON lines for each tenant.

It is read from its end in chunks, and every line comes out once, the newest first, wherever the
chunks end. What is in a line is not always what was logged: a request is written as JSON with
`str` for what JSON has no form for, so a date comes back as its text and a tuple as a list
(`reads_iff`). -/
namespace PiPlatform.Console.Audit

open Library Library.Json Library.Python Production.RateWindows

/-! ### Entries -/

/-- What a request did, as `AuditLogEntry.action` names it. -/
inductive Action where
  | compositionSubmitted | compositionSimulated | compositionApproved | compositionRejected
  | executionReplayViewed | marketplaceQueried | quotaChecked | dagVisualized | chatMessageSent
  deriving DecidableEq

def Action.value : Action → String
  | .compositionSubmitted => "COMPOSITION_SUBMITTED"
  | .compositionSimulated => "COMPOSITION_SIMULATED"
  | .compositionApproved => "COMPOSITION_APPROVED"
  | .compositionRejected => "COMPOSITION_REJECTED"
  | .executionReplayViewed => "EXECUTION_REPLAY_VIEWED"
  | .marketplaceQueried => "MARKETPLACE_QUERIED"
  | .quotaChecked => "QUOTA_CHECKED"
  | .dagVisualized => "DAG_VISUALIZED"
  | .chatMessageSent => "CHAT_MESSAGE_SENT"

def Action.all : List Action :=
  [.compositionSubmitted, .compositionSimulated, .compositionApproved, .compositionRejected,
    .executionReplayViewed, .marketplaceQueried, .quotaChecked, .dagVisualized, .chatMessageSent]

def Action.ofValue (s : Text) : Option Action := Action.all.find? fun a => ofString a.value = s

/-- `datetime`, with offsets from UTC in whole minutes, as `str`, pydantic and
`datetime.fromisoformat` have it. -/
structure Datetime (F T : Type) where
  str : T → String
  /-- What pydantic makes of a field. -/
  validate : AnyValue F → Option T
  fromisoformat : Text → Option T
  /-- None where one has an offset and the other does not. -/
  lt : T → T → Option Bool
  validate_str : ∀ t, validate (.str (ofString (str t))) = some t

structure AuditLogEntry (F T : Type) where
  entryId : String
  timestamp : T
  tenantId : String
  consoleSessionId : String
  requestId : String
  action : Action
  structuredRequest : Dict String (AnyValue F)
  responseStatus : String
  userIp : String

/-- What the default factories return. -/
structure Fresh (T : Type) where
  entryId : String
  timestamp : T

/-- A dictionary read from a line. -/
abbrev Data (F : Type) := List (AnyKey × AnyValue F)

section Entries
variable {F T : Type} (D : Datetime F T)

def AuditLogEntry.fields (e : AuditLogEntry F T) : List (String × AnyValue F) :=
  [("entry_id", .str (ofString e.entryId)),
    ("timestamp", .other (ofString (D.str e.timestamp))),
    ("tenant_id", .str (ofString e.tenantId)),
    ("console_session_id", .str (ofString e.consoleSessionId)),
    ("request_id", .str (ofString e.requestId)),
    ("action", .str (ofString e.action.value)),
    ("structured_request", .dict (AnyValue.named e.structuredRequest.items)),
    ("response_status", .str (ofString e.responseStatus)),
    ("user_ip", .str (ofString e.userIp))]

def AuditLogEntry.modelDump (e : AuditLogEntry F T) : AnyValue F :=
  .dict (AnyValue.named (e.fields D))

def get (data : Data F) (field : String) : Option (AnyValue F) :=
  lookupItem (.str (ofString field)) data

/-- A field of type `str`: a surrogate that stands alone is refused. -/
def validateStr (default? : Option String) : Option (AnyValue F) → Option String
  | none => default?
  | some (.str s) => encode s
  | some _ => none

def validateAction : Option (AnyValue F) → Option Action
  | some (.str s) => Action.ofValue s
  | _ => none

def validateKey : AnyKey → Option String
  | .str s => encode s
  | .other _ => none

/-- A field of type `Dict[str, Any]`. -/
def validateRequest : Option (AnyValue F) → Option (Dict String (AnyValue F))
  | none => some .empty
  | some (.dict items) => (items.mapM fun p => (validateKey p.1).map (·, p.2)).map Dict.ofList
  | some _ => none

/-- `AuditLogEntry(**data)` -/
def AuditLogEntry.validate (fresh : Fresh T) (data : Data F) : Option (AuditLogEntry F T) := do
  let entryId ← validateStr (some fresh.entryId) (get data "entry_id")
  let timestamp ← (get data "timestamp").elim (some fresh.timestamp) D.validate
  let tenantId ← validateStr none (get data "tenant_id")
  let consoleSessionId ← validateStr none (get data "console_session_id")
  let requestId ← validateStr none (get data "request_id")
  let action ← validateAction (get data "action")
  let structuredRequest ← validateRequest (get data "structured_request")
  let responseStatus ← validateStr (some "") (get data "response_status")
  let userIp ← validateStr (some "") (get data "user_ip")
  some ⟨entryId, timestamp, tenantId, consoleSessionId, requestId, action, structuredRequest,
    responseStatus, userIp⟩

end Entries

/-! ### The store -/

/-- The characters of a tenant's name. -/
def isTenantChar (c : CodePoint) : Bool :=
  (48 ≤ c.val && c.val ≤ 57) || (65 ≤ c.val && c.val ≤ 90) || (97 ≤ c.val && c.val ≤ 122) ||
    c.val = 95 || c.val = 45

/-- `^[A-Za-z0-9_-]{1,64}$`, where `$` also matches in front of a last line feed. -/
def safeTenantId (tenantId : Text) : Bool :=
  let name := tenantId.takeWhile isTenantChar
  let rest := tenantId.dropWhile isTenantChar
  (1 ≤ name.length && name.length ≤ 64) && (rest = [] || rest = [lineFeed])

/-- The file names of the log directory. None where the tenant is refused. -/
def path (tenantId : Text) : Option Text :=
  if safeTenantId tenantId then some (ofString "audit_" ++ tenantId ++ ofString ".jsonl") else none

/-- The files of the log directory. Each byte is an ASCII character. -/
abbrev LogDir := Dict Text (List Char)

/-- The arguments of `query` and `count` that select entries. -/
structure Filters (T : Type) where
  consoleSessionId : Option Text
  actionFilter : Option Text
  fromTimestamp : Option T
  toTimestamp : Option T

def isAsciiSpace (c : Char) : Bool := c = ' ' || (9 ≤ c.toNat && c.toNat ≤ 13)

/-- `raw.strip()` -/
def stripBytes (raw : List Char) : List Char := (raw.dropWhile isAsciiSpace).rdropWhile isAsciiSpace

section Store
variable {F T : Type} [FloatCodec F] (D : Datetime F T)

/-- The file is opened before the entry is dumped. None where one of them raises. -/
def append (dir : LogDir) (entry : AuditLogEntry F T) : LogDir × Option Unit :=
  match path (ofString entry.tenantId) with
  | none => (dir, none)
  | some path =>
    let file := (dir.get? path).getD []
    match (entry.modelDump D).write with
    | none => (dir.set path file, none)
    | some d => (dir.set path (file ++ (d.render .spaced ++ ['\n'])), some ())

/-- The directory after some calls, and the entries whose calls returned. -/
def appendAll : LogDir → List (AuditLogEntry F T) → LogDir × List (AuditLogEntry F T)
  | dir, [] => (dir, [])
  | dir, entry :: entries =>
    let (dir', returned) := append D dir entry
    let (dir'', appended) := appendAll dir' entries
    (dir'', if returned.isSome then entry :: appended else appended)

/-- `bool(v)`, for what is read from JSON. -/
def falsy : AnyValue F → Bool
  | .none => true
  | .bool b => !b
  | .int i => i = 0
  | .float x => floatText x = "0.0".toList || floatText x = "-0.0".toList
  | .str s => s.isEmpty
  | .list xs => xs.isEmpty
  | .tuple xs => xs.isEmpty
  | .dict items => items.isEmpty
  | .other _ => false

/-- An empty filter is none. -/
def passes (filter? : Option Text) (v : Option (AnyValue F)) : Bool :=
  match filter? with
  | none => true
  | some s => s.isEmpty || match v with
    | some (.str t) => t = s
    | _ => false

def inPeriod (filters : Filters T) (t : T) : Option Bool := do
  let early ← filters.fromTimestamp.elim (some false) fun start => D.lt t start
  if early then some false
  else
    let late ← filters.toTimestamp.elim (some false) fun stop => D.lt stop t
    some !late

/-- A text that is no time passes. None where `fromisoformat` or the comparison raises. -/
def passesPeriod (filters : Filters T) (ts : Option (AnyValue F)) : Option Bool :=
  match ts with
  | none => some true
  | some ts =>
    if falsy ts || (filters.fromTimestamp.isNone && filters.toTimestamp.isNone) then some true
    else match ts with
      | .str s => (D.fromisoformat s).elim (some true) (inPeriod D filters)
      | _ => none

/-- What `_iter_matching` does with a line: it skips it, yields what it reads, or raises. -/
def matchLine (filters : Filters T) (line : List Char) : Option (Option (Data F)) :=
  let raw := stripBytes line
  if raw.isEmpty then none
  else match (parse raw).map AnyValue.read with
    | none => none
    | some (.dict data) =>
      if !passes filters.consoleSessionId (get data "console_session_id") then none
      else if !passes filters.actionFilter (get data "action") then none
      else match passesPeriod D filters (get data "timestamp") with
        | none => some none
        | some true => some (some data)
        | some false => none
    | some _ => some none

def chunkSize : Nat := 64 * 1024

instance : NeZero chunkSize := ⟨by decide⟩

/-- What `_iter_matching` yields, up to where it raises. -/
def iterMatching (dir : LogDir) (path : Text) (filters : Filters T) : List (Option (Data F)) :=
  match dir.get? path with
  | none => []
  | some file => (readBack '\n' chunkSize file file.length []).filterMap (matchLine D filters)

/-- The loop of `query`. -/
def collect (fresh : Nat → Fresh T) (limit offset : Int) :
    Int → List (AuditLogEntry F T) → List (Option (Data F)) → Option (List (AuditLogEntry F T))
  | _, results, [] => some results
  | _, _, none :: _ => none
  | skipped, results, some data :: rest =>
    if skipped < offset then collect fresh limit offset (skipped + 1) results rest
    else
      match AuditLogEntry.validate D (fresh results.length) data with
      | none => none
      | some entry =>
        if limit ≤ (results ++ [entry]).length then some (results ++ [entry])
        else collect fresh limit offset skipped (results ++ [entry]) rest

def query (fresh : Nat → Fresh T) (dir : LogDir) (tenantId : Text) (filters : Filters T)
    (limit offset : Int) : Option (List (AuditLogEntry F T)) := do
  let path ← path tenantId
  collect D fresh limit offset 0 [] (iterMatching D dir path filters)

def count (dir : LogDir) (tenantId : Text) (filters : Filters T) : Option Nat := do
  let path ← path tenantId
  let data ← (iterMatching D dir path filters).mapM id
  some data.length

end Store

/-! ### What the store is for -/

section Purpose
variable {F T : Type} [FloatCodec F] (D : Datetime F T)

/-- An empty filter is none. -/
def selects (filter? : Option Text) (s : String) : Bool :=
  filter?.all fun f => f.isEmpty || ofString s = f

/-- The matching entries of a tenant, the newest first. -/
def newestFirst (tenantId : Text) (consoleSessionId actionFilter : Option Text)
    (appended : List (AuditLogEntry F T)) : List (AuditLogEntry F T) :=
  (appended.filter fun e => decide (ofString e.tenantId = tenantId) &&
    (selects consoleSessionId e.consoleSessionId && selects actionFilter e.action.value)).reverse

/-- The entries from `offset` on, `limit` at most. -/
def page (limit offset : Int) (entries : List (AuditLogEntry F T)) : List (AuditLogEntry F T) :=
  (entries.drop offset.toNat).take limit.toNat

/-- What the plain reader would return. -/
structure Reads (fresh : Nat → Fresh T) (calls : List (AuditLogEntry F T)) (tenantId : Text)
    (consoleSessionId actionFilter : Option Text) (limit offset : Int) : Prop where
  query : query D fresh (appendAll D .empty calls).1 tenantId
      ⟨consoleSessionId, actionFilter, none, none⟩ limit offset =
    some (page limit offset
      (newestFirst tenantId consoleSessionId actionFilter (appendAll D .empty calls).2))
  count : count D (appendAll D .empty calls).1 tenantId
      ⟨consoleSessionId, actionFilter, none, none⟩ =
    some (newestFirst tenantId consoleSessionId actionFilter (appendAll D .empty calls).2).length

/-- The request has a form in JSON and comes back from it. -/
def AuditLogEntry.plainRequest (e : AuditLogEntry F T) : Bool :=
  e.structuredRequest.items.all fun p => p.2.plain

end Purpose

/-! ### Lines -/

section Lines
variable {F T : Type} {D : Datetime F T} {e : AuditLogEntry F T}

def AuditLogEntry.reread (e : AuditLogEntry F T) : AuditLogEntry F T :=
  { e with structuredRequest := e.structuredRequest.mapValues AnyValue.reread }

/-- What is read from an entry's line. -/
def AuditLogEntry.data (D : Datetime F T) (e : AuditLogEntry F T) : Data F :=
  AnyValue.named ((e.fields D).map fun p => (p.1, p.2.reread))

def AuditLogEntry.line [FloatCodec F] (D : Datetime F T) (e : AuditLogEntry F T) : List Char :=
  ((e.modelDump D).write.map (Document.render .spaced)).getD []

theorem encode_ofString (s : String) : encode (ofString s) = some s := by
  have hvalid : ∀ c : Char, Nat.isValidChar (ofChar c).val := fun c => c.valid
  rw [encode, if_pos]
  · refine congrArg some ?_
    rw [ofString, List.map_map]
    have hid : (fun c : CodePoint => Char.ofNat c.val) ∘ ofChar = id := by
      funext c
      exact Char.ofNat_toNat c
    rw [hid, List.map_id, String.ofList_toList]
  · rw [List.all_eq_true, ofString]
    intro c hc
    obtain ⟨d, -, rfl⟩ := List.mem_map.mp hc
    exact decide_eq_true (hvalid d)

theorem Action.ofValue_value (a : Action) : Action.ofValue (ofString a.value) = some a := by
  cases a <;> rfl

theorem nodup_fields (D : Datetime F T) (e : AuditLogEntry F T) :
    ((e.fields D).map Prod.fst).Nodup := by
  simp [AuditLogEntry.fields]

theorem get_field {field : String} {v : AnyValue F} (h : (field, v) ∈ e.fields D) :
    get (e.data D) field = some v.reread := by
  have hnodup : (((e.fields D).map fun p => (p.1, p.2.reread)).map Prod.fst).Nodup := by
    rw [List.map_map]
    exact nodup_fields D e
  rw [get, AuditLogEntry.data, AnyValue.lookup_named]
  exact (mem_items_iff hnodup).mp (List.mem_map_of_mem (f := fun p => (p.1, p.2.reread)) h)

theorem reread_str (s : String) : (AnyValue.str (ofString s) : AnyValue F).reread =
    .str (ofString s) := by
  show AnyValue.read (Document.join (.str (ofString s))) = _
  rw [Document.join, joined_ofString, AnyValue.read]

theorem reread_other (s : String) : (AnyValue.other (ofString s) : AnyValue F).reread =
    .str (ofString s) := reread_str s

theorem passes_str (filter? : Option Text) (s : String) :
    passes filter? (some (.str (ofString s) : AnyValue F)) = selects filter? s := by
  cases filter? <;> rfl

/-- The request is written where the whole entry is. -/
theorem isSome_write_request (h : (e.modelDump D).write.isSome = true) :
    (AnyValue.dict (AnyValue.named e.structuredRequest.items)).write.isSome = true := by
  rw [AuditLogEntry.modelDump, AnyValue.write, Option.isSome_map,
    AnyValue.isSome_writeItems_named, List.all_eq_true] at h
  exact h ("structured_request", _) (by simp [AuditLogEntry.fields])

theorem reread_request (h : (e.modelDump D).write.isSome = true) :
    (AnyValue.dict (AnyValue.named e.structuredRequest.items)).reread =
      .dict (AnyValue.named (e.structuredRequest.mapValues AnyValue.reread).items) := by
  obtain ⟨d, hd⟩ := Option.isSome_iff_exists.mp (isSome_write_request h)
  rw [AnyValue.reread, hd]
  exact AnyValue.read_named e.structuredRequest.nodup hd

theorem ofList_items (d : Dict String (AnyValue F)) : Dict.ofList d.items = d := by
  obtain ⟨items, nodup⟩ := d
  have hitems : setItems [] items = items := setItems_of_nodup items nodup
  simp only [Dict.ofList, hitems]

theorem validateRequest_named (d : Dict String (AnyValue F)) :
    validateRequest (some (.dict (AnyValue.named d.items))) = some d := by
  have hkeys : ∀ items : List (String × AnyValue F),
      (AnyValue.named items).mapM (fun p => (validateKey p.1).map (·, p.2)) = some items := by
    intro items
    induction items with
    | nil => rfl
    | cons item items ih =>
      rw [AnyValue.named] at ih ⊢
      rw [List.map_cons, List.mapM_cons, ih, validateKey, encode_ofString]
      rfl
  rw [validateRequest, hkeys]
  exact congrArg some (ofList_items d)

/-- What is read of a line makes its entry again, up to the request. -/
theorem validate_data (fresh : Fresh T) (h : (e.modelDump D).write.isSome = true) :
    AuditLogEntry.validate D fresh (e.data D) = some e.reread := by
  have hget : ∀ p ∈ e.fields D, get (e.data D) p.1 = some p.2.reread := fun p hp => get_field hp
  simp only [AuditLogEntry.fields, List.forall_mem_cons, reread_str, reread_other,
    reread_request h] at hget
  obtain ⟨hentry, htime, htenant, hsession, hrequest, haction, hstructured, hstatus, hip, -⟩ := hget
  rw [AuditLogEntry.validate, hentry, htime, htenant, hsession, hrequest, haction, hstructured,
    hstatus, hip, validateRequest_named]
  simp only [validateStr, validateAction, encode_ofString, Action.ofValue_value, Option.elim_some,
    D.validate_str, Option.bind_eq_bind, Option.bind_some]
  rfl

end Lines

section Selection
variable {F T : Type} [FloatCodec F] {D : Datetime F T} {e : AuditLogEntry F T}
  {consoleSessionId actionFilter : Option Text}

theorem read_line (h : (e.modelDump D).write.isSome = true) :
    (parse (e.line D)).map AnyValue.read = some (.dict (e.data D)) := by
  obtain ⟨d, hd⟩ := Option.isSome_iff_exists.mp h
  have hline : e.line D = d.render .spaced := by
    rw [AuditLogEntry.line, hd]
    rfl
  rw [hline, parse_render, Option.map_some]
  exact congrArg some (AnyValue.read_named (nodup_fields D e) hd)

/-- A line begins and ends with a brace. -/
theorem exists_line (h : (e.modelDump D).write.isSome = true) :
    ∃ body, e.line D = '{' :: (body ++ ['}']) := by
  obtain ⟨d, hd⟩ := Option.isSome_iff_exists.mp h
  obtain ⟨ms, -, rfl⟩ := Option.map_eq_some_iff.mp hd
  rw [AuditLogEntry.line, hd]
  exact exists_render_obj ms

theorem stripBytes_line (h : (e.modelDump D).write.isSome = true) :
    stripBytes (e.line D) = e.line D := by
  obtain ⟨body, hbody⟩ := exists_line h
  rw [stripBytes, hbody, List.dropWhile_cons_of_neg (by decide), ← List.cons_append,
    List.rdropWhile_concat_neg _ _ _ (by decide)]

theorem newline_not_mem_line (e : AuditLogEntry F T) : '\n' ∉ e.line D := by
  rw [AuditLogEntry.line]
  cases (e.modelDump D).write with
  | none => exact List.not_mem_nil
  | some d => exact newline_not_mem_render flat_spaced d

/-- With no period the time of an entry is not looked at. -/
theorem passesPeriod_none (ts : Option (AnyValue F)) :
    passesPeriod D ⟨consoleSessionId, actionFilter, none, none⟩ ts = some true := by
  cases ts with
  | none => rfl
  | some ts => simp [passesPeriod]

theorem matchLine_nil (filters : Filters T) : matchLine D filters [] = none := rfl

/-- A line is yielded if its entry is selected. -/
theorem matchLine_line (h : (e.modelDump D).write.isSome = true) :
    matchLine D ⟨consoleSessionId, actionFilter, none, none⟩ (e.line D) =
      if selects consoleSessionId e.consoleSessionId && selects actionFilter e.action.value then
        some (some (e.data D))
      else none := by
  have hne : (e.line D).isEmpty = false := by
    obtain ⟨body, hbody⟩ := exists_line h
    rw [hbody]
    rfl
  have hsession : get (e.data D) "console_session_id" =
      some (AnyValue.str (ofString e.consoleSessionId)).reread :=
    get_field (by simp [AuditLogEntry.fields])
  have haction : get (e.data D) "action" = some (AnyValue.str (ofString e.action.value)).reread :=
    get_field (by simp [AuditLogEntry.fields])
  rw [reread_str] at hsession haction
  simp only [matchLine, stripBytes_line h, hne, read_line h, hsession, haction, passes_str,
    passesPeriod_none]
  cases selects consoleSessionId e.consoleSessionId <;>
    cases selects actionFilter e.action.value <;> rfl

end Selection

/-! ### Files -/

section Files
variable {F T : Type} [FloatCodec F] {D : Datetime F T} {tenantId : Text} {p : Text}

theorem path_eq_some (h : path tenantId = some p) {tenantId' : Text}
    (h' : path tenantId' = some p) : tenantId' = tenantId := by
  rw [path] at h h'
  split_ifs at h h'
  have heq := (Option.some.inj h').trans (Option.some.inj h).symm
  exact List.append_cancel_left (List.append_cancel_right heq)

theorem exists_path (h : safeTenantId tenantId = true) : ∃ p, path tenantId = some p :=
  ⟨_, if_pos h⟩

/-- What is in a tenant's file. -/
def linesOf (D : Datetime F T) (tenantId : Text) (appended : List (AuditLogEntry F T)) :
    List (List Char) :=
  (appended.filter fun e => decide (ofString e.tenantId = tenantId)).map (AuditLogEntry.line D)

/-- An entry whose call returned is at the end of its tenant's file and of no other. -/
theorem get?_append (h : path tenantId = some p) (dir : LogDir) (e : AuditLogEntry F T) :
    ((append D dir e).1.get? p).getD [] = (dir.get? p).getD [] ++
      if (append D dir e).2.isSome = true ∧ ofString e.tenantId = tenantId then
        e.line D ++ ['\n'] else [] := by
  rw [append]
  cases hpath : path (ofString e.tenantId) with
  | none => simp
  | some q =>
    have hsame : q = p ↔ ofString e.tenantId = tenantId :=
      ⟨fun hq => path_eq_some h (hq ▸ hpath), fun ht => by
        rw [ht, h] at hpath
        exact (Option.some.inj hpath).symm⟩
    cases hwrite : (e.modelDump D).write with
    | none => by_cases hq : q = p <;> simp [hq, Dict.get?_set]
    | some d =>
      have hline : e.line D = d.render .spaced := by
        rw [AuditLogEntry.line, hwrite]
        rfl
      by_cases hq : q = p <;> simp [hq, Dict.get?_set, ← hsame, hline]

theorem isSome_write_of_append {dir : LogDir} {e : AuditLogEntry F T}
    (h : (append D dir e).2.isSome = true) : (e.modelDump D).write.isSome = true := by
  rw [append] at h
  cases hpath : path (ofString e.tenantId) with
  | none => simp [hpath] at h
  | some q =>
    cases hwrite : (e.modelDump D).write with
    | none => simp [hpath, hwrite] at h
    | some d => rfl

theorem get?_appendAll (h : path tenantId = some p) (dir : LogDir)
    (calls : List (AuditLogEntry F T)) :
    ((appendAll D dir calls).1.get? p).getD [] = (dir.get? p).getD [] ++
      ((linesOf D tenantId (appendAll D dir calls).2).flatMap fun line => line ++ ['\n']) := by
  induction calls generalizing dir with
  | nil => simp [appendAll, linesOf]
  | cons e calls ih =>
    rw [appendAll]
    dsimp only
    rw [ih, get?_append h, List.append_assoc]
    congr 1
    by_cases hreturned : (append D dir e).2.isSome = true
    · by_cases htenant : ofString e.tenantId = tenantId
      · simp [hreturned, htenant, linesOf]
      · simp [hreturned, htenant, linesOf]
    · simp [hreturned]

theorem isSome_write_of_appended {dir : LogDir} {calls : List (AuditLogEntry F T)} :
    ∀ e ∈ (appendAll D dir calls).2, (e.modelDump D).write.isSome = true := by
  induction calls generalizing dir with
  | nil => exact List.forall_mem_nil _
  | cons e calls ih =>
    rw [appendAll]
    dsimp only
    split_ifs with hreturned
    · exact List.forall_mem_cons.mpr ⟨isSome_write_of_append hreturned, ih⟩
    · exact ih

end Files

/-! ### Reading -/

section Reading
variable {F T : Type} [FloatCodec F] {D : Datetime F T} {tenantId : Text} {p : Text}
  {consoleSessionId actionFilter : Option Text} {calls : List (AuditLogEntry F T)}
  {entries : List (AuditLogEntry F T)}

/-- The lines of a file come out in reverse, whatever their lengths are. -/
theorem iterMatching_eq (dir : LogDir) (p : Text) (filters : Filters T) :
    iterMatching D dir p filters =
      ((((dir.get? p).getD []).splitOn '\n').reverse.filterMap (matchLine D filters)) := by
  rw [iterMatching]
  cases dir.get? p with
  | none => rfl
  | some file =>
    by_cases hne : file = []
    · subst hne
      dsimp only
      rw [List.length_nil, readBack, dif_pos rfl]
      rfl
    · dsimp only
      rw [readBack_eq chunkSize hne]
      rfl

theorem filterMap_matchLine (hwrite : ∀ e ∈ entries, (e.modelDump D).write.isSome = true) :
    (entries.map (AuditLogEntry.line D)).filterMap
        (matchLine D ⟨consoleSessionId, actionFilter, none, none⟩) =
      (entries.filter fun e => selects consoleSessionId e.consoleSessionId &&
        selects actionFilter e.action.value).map fun e => some (e.data D) := by
  induction entries with
  | nil => rfl
  | cons e entries ih =>
    rw [List.forall_mem_cons] at hwrite
    rw [List.map_cons, List.filterMap_cons, matchLine_line hwrite.1, ih hwrite.2, List.filter_cons]
    split_ifs <;> rfl

/-- What is yielded are the selected entries, the newest first. -/
theorem iterMatching_appendAll (h : path tenantId = some p) (calls : List (AuditLogEntry F T)) :
    iterMatching D (appendAll D .empty calls).1 p ⟨consoleSessionId, actionFilter, none, none⟩ =
      (newestFirst tenantId consoleSessionId actionFilter (appendAll D .empty calls).2).map
        fun e => some (e.data D) := by
  have hfree : ∀ line ∈ linesOf D tenantId (appendAll D .empty calls).2, '\n' ∉ line := by
    intro line hline
    obtain ⟨e, -, rfl⟩ := List.mem_map.mp hline
    exact newline_not_mem_line e
  have hwrite : ∀ e ∈ (appendAll D .empty calls).2.filter fun e =>
      decide (ofString e.tenantId = tenantId), (e.modelDump D).write.isSome = true :=
    fun e he => isSome_write_of_appended e (List.mem_of_mem_filter he)
  rw [iterMatching_eq, get?_appendAll h, Dict.get?_empty, Option.getD_none, List.nil_append,
    splitOn_ended hfree, List.reverse_append, List.reverse_singleton, List.singleton_append,
    List.filterMap_cons_none (matchLine_nil _), newestFirst, linesOf, List.filterMap_reverse,
    List.map_reverse, filterMap_matchLine hwrite, List.filter_filter]
  simp only [Bool.and_comm]

omit [FloatCodec F] in
/-- The loop skips, takes and stops at the limit. -/
theorem collect_map (fresh : Nat → Fresh T) {limit offset skipped : Int}
    {results entries : List (AuditLogEntry F T)}
    (hwrite : ∀ e ∈ entries, (e.modelDump D).write.isSome = true) (hskipped : skipped ≤ offset)
    (hlimit : results.length < limit) :
    collect D fresh limit offset skipped results (entries.map fun e => some (e.data D)) =
      some (results ++ (page (limit - results.length) (offset - skipped) entries).map
        AuditLogEntry.reread) := by
  induction entries generalizing skipped results with
  | nil => simp [collect, page]
  | cons e entries ih =>
    rw [List.forall_mem_cons] at hwrite
    rw [List.map_cons, collect]
    by_cases hskip : skipped < offset
    · have hdrop : (offset - skipped).toNat = (offset - (skipped + 1)).toNat + 1 := by omega
      rw [if_pos hskip, ih hwrite.2 (by omega) hlimit, page, page, hdrop, List.drop_succ_cons]
    · have hdrop : (offset - skipped).toNat = 0 := by omega
      have htake : (limit - results.length).toNat =
          (limit - (results ++ [e.reread]).length).toNat + 1 := by
        rw [List.length_append, List.length_singleton]
        omega
      rw [if_neg hskip, validate_data _ hwrite.1]
      dsimp only
      rw [page, hdrop, List.drop_zero, htake, List.take_succ_cons, List.map_cons]
      split_ifs with hfull
      · have hlast : (limit - (results ++ [e.reread]).length).toNat = 0 := by omega
        rw [hlast, List.take_zero, List.map_nil]
      · rw [ih hwrite.2 hskipped (by omega), page, hdrop, List.drop_zero, List.append_assoc,
          List.singleton_append]

omit [FloatCodec F] in
theorem reread_eq_iff {e : AuditLogEntry F T} (h : (e.modelDump D).write.isSome = true) :
    e.reread = e ↔ e.plainRequest = true := by
  have hrequest := isSome_write_request h
  rw [AnyValue.write, Option.isSome_map, AnyValue.isSome_writeItems_named, List.all_eq_true]
    at hrequest
  have hitems : e.reread = e ↔ (e.structuredRequest.items.map fun q => (q.1, q.2.reread)) =
      e.structuredRequest.items.map id := by
    rw [List.map_id]
    obtain ⟨_, _, _, _, _, _, ⟨items, nodup⟩, _, _⟩ := e
    simp only [AuditLogEntry.reread, Dict.mapValues, AuditLogEntry.mk.injEq, Dict.mk.injEq,
      true_and, and_true]
  rw [hitems, List.map_inj_left, AuditLogEntry.plainRequest, List.all_eq_true]
  refine forall₂_congr fun q hq => ?_
  rw [← AnyValue.reread_eq_iff (hrequest q hq), id_eq, Prod.ext_iff]
  exact and_iff_right rfl

omit [FloatCodec F] in
theorem map_reread_eq_iff (hwrite : ∀ e ∈ entries, (e.modelDump D).write.isSome = true) :
    entries.map AuditLogEntry.reread = entries ↔ ∀ e ∈ entries, e.plainRequest = true := by
  refine Iff.trans ?_ (forall₂_congr fun e he => reread_eq_iff (hwrite e he))
  have hid := @List.map_inj_left _ _ entries AuditLogEntry.reread id
  rw [List.map_id] at hid
  exact hid

omit [FloatCodec F] in
theorem mapM_some (entries : List (AuditLogEntry F T)) :
    (entries.map fun e => some (e.data D)).mapM id = some (entries.map (AuditLogEntry.data D)) := by
  induction entries with
  | nil => rfl
  | cons e entries ih =>
    rw [List.map_cons, List.mapM_cons, ih]
    rfl

theorem isSome_write_of_mem_newestFirst :
    ∀ e ∈ newestFirst tenantId consoleSessionId actionFilter (appendAll D .empty calls).2,
      (e.modelDump D).write.isSome = true := fun e he =>
  isSome_write_of_appended e (List.mem_of_mem_filter (List.mem_reverse.mp he))

/-- The page, as it is read back. -/
theorem query_appendAll (fresh : Nat → Fresh T) (hsafe : safeTenantId tenantId = true)
    {limit offset : Int} (hoffset : 0 ≤ offset) (hlimit : 1 ≤ limit) :
    query D fresh (appendAll D .empty calls).1 tenantId
        ⟨consoleSessionId, actionFilter, none, none⟩ limit offset =
      some ((page limit offset (newestFirst tenantId consoleSessionId actionFilter
        (appendAll D .empty calls).2)).map AuditLogEntry.reread) := by
  obtain ⟨p, hp⟩ := exists_path hsafe
  rw [query, hp]
  show collect D fresh limit offset 0 [] (iterMatching D _ p _) = _
  rw [iterMatching_appendAll hp, collect_map fresh isSome_write_of_mem_newestFirst hoffset]
  · simp
  · rw [List.length_nil]
    omega

theorem count_appendAll (hsafe : safeTenantId tenantId = true) :
    count D (appendAll D .empty calls).1 tenantId ⟨consoleSessionId, actionFilter, none, none⟩ =
      some (newestFirst tenantId consoleSessionId actionFilter
        (appendAll D .empty calls).2).length := by
  obtain ⟨p, hp⟩ := exists_path hsafe
  rw [count, hp]
  show (List.mapM id (iterMatching D _ p _)).bind (fun data => some data.length) = _
  rw [iterMatching_appendAll hp, mapM_some, Option.bind_some, List.length_map]

/-- The reader returns what was logged exactly where the requests on the page are plain JSON. -/
theorem reads_iff (D : Datetime F T) (fresh : Nat → Fresh T) (calls : List (AuditLogEntry F T))
    (tenantId : Text) (consoleSessionId actionFilter : Option Text) {limit offset : Int}
    (hoffset : 0 ≤ offset) (hlimit : 1 ≤ limit) :
    Reads D fresh calls tenantId consoleSessionId actionFilter limit offset ↔
      safeTenantId tenantId = true ∧ ∀ e ∈ page limit offset (newestFirst tenantId
        consoleSessionId actionFilter (appendAll D .empty calls).2), e.plainRequest = true := by
  have hwrite : ∀ e ∈ page limit offset (newestFirst tenantId consoleSessionId actionFilter
      (appendAll D .empty calls).2), (e.modelDump D).write.isSome = true := fun e he =>
    isSome_write_of_mem_newestFirst e (List.mem_of_mem_drop (List.mem_of_mem_take he))
  by_cases hsafe : safeTenantId tenantId = true
  · rw [and_iff_right hsafe, ← map_reread_eq_iff hwrite]
    constructor
    · intro h
      exact Option.some.inj ((query_appendAll fresh hsafe hoffset hlimit).symm.trans h.query)
    · intro h
      exact ⟨(query_appendAll fresh hsafe hoffset hlimit).trans (congrArg some h),
        count_appendAll hsafe⟩
  · refine iff_of_false (fun h => ?_) fun h => hsafe h.1
    have hquery := h.query
    rw [query, path, if_neg hsafe] at hquery
    cases hquery

end Reading

/-! ### A dated request -/

section Dated

/-- Times given by their texts. -/
def texts : Datetime Literal String where
  str := id
  validate
    | .str s => encode s
    | _ => none
  fromisoformat := encode
  lt s t := some (decide (s < t))
  validate_str := encode_ofString

def freshEntry : Nat → Fresh String := fun _ => ⟨"aud_0", "2025-01-01 00:00:00+00:00"⟩

/-- An entry with a request of one value. -/
def entryWith (v : AnyValue Literal) : AuditLogEntry Literal String where
  entryId := "aud_1"
  timestamp := "2025-01-01 00:00:00+00:00"
  tenantId := "acme"
  consoleSessionId := "s1"
  requestId := "r1"
  action := .compositionSubmitted
  structuredRequest := Dict.empty.set "created_at" v
  responseStatus := ""
  userIp := ""

/-- The console logs a composition's `created_at`. -/
def dated : AuditLogEntry Literal String :=
  entryWith (.other (ofString "2025-01-01 00:00:00+00:00"))

/-- An entry with a request of one text. -/
def sized (length : Nat) : AuditLogEntry Literal String :=
  entryWith (.str (ofString (String.ofList (List.replicate length 'a'))))

theorem plainRequest_sized (length : Nat) : (sized length).plainRequest = true := by
  simp [sized, entryWith, AuditLogEntry.plainRequest, Dict.set, Dict.empty, setItem, AnyValue.plain]

/-- Three lines longer than a chunk and a short one, read without the newest. -/
theorem reads_numbered :
    query texts freshEntry (appendAll texts .empty
        [sized 200000, entryWith (.int 7), sized 70000, sized 65536]).1 (ofString "acme")
        ⟨none, none, none, none⟩ 3 1 =
      some [sized 70000, entryWith (.int 7), sized 200000] := by
  have hpage : page 3 1 (newestFirst (ofString "acme") none none (appendAll texts .empty
      [sized 200000, entryWith (.int 7), sized 70000, sized 65536]).2) =
        [sized 70000, entryWith (.int 7), sized 200000] := rfl
  have hreads := (reads_iff texts freshEntry
    [sized 200000, entryWith (.int 7), sized 70000, sized 65536] (ofString "acme") none none
    (show (0 : Int) ≤ 1 by decide) (show (1 : Int) ≤ 3 by decide)).mpr ⟨by decide, ?_⟩
  · exact hreads.query.trans (congrArg some hpage)
  · have hshort : (entryWith (.int 7)).plainRequest = true := rfl
    simp [hpage, plainRequest_sized, hshort]

theorem not_reads_dated :
    ¬ Reads texts freshEntry [dated] (ofString "acme") none none 1 0 := by
  intro h
  have hread := (query_appendAll freshEntry (by decide) (by decide) (by decide)).symm.trans h.query
  have happended : page 1 0 (newestFirst (ofString "acme") none none
      (appendAll texts .empty [dated]).2) = [dated] := by rfl
  rw [happended] at hread
  have hsame := Option.some.inj hread
  cases congrArg (fun entries => entries.map fun e => e.structuredRequest.items) hsame

end Dated

end PiPlatform.Console.Audit
