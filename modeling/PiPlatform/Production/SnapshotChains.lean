import PiPlatform.EventFabric.Bus.Reproducible
import PiPlatform.Production.Api

/-! Whether the snapshots stored through the API are chains that verify.

`store_snapshot` gives every snapshot the number 1 and an empty previous hash, and
`verify_chain` wants each row but the first to repeat the hash of the row before. So the
chain of a source verifies as long as it has one row (`chains_verify_iff`). -/
namespace PiPlatform.Production

open Library Library.Json Library.Python EventFabric

variable {F : Type} [FloatCodec F] [SetText F] {H : Digest} {limiter : RateLimiter}
  {auth : AuthModule}

/-- What the rows of one chain are selected by. -/
structure SourceKey where
  tenantId : String
  sourceId : String
  snapshotType : String
  deriving DecidableEq

def SnapshotColumns.key (c : SnapshotColumns) : SourceKey :=
  ⟨c.tenantId, c.sourceId, c.snapshotType⟩

def SnapshotStoreRequest.key (req : SnapshotStoreRequest F) : SourceKey :=
  ⟨req.tenantId, req.sourceId, req.snapshotType⟩

/-! ### Rows as the route writes them -/

/-- A row with the hash of its columns that claims to be the first of its chain. -/
structure First (H : Digest) (s : Snapshot) : Prop where
  number : s.sequenceNumber = 1
  previous : s.previousHash = ""
  hash : s.artifactHash = H.hex s.text

/-- Such rows verify if there is at most one. -/
theorem chainErrors_first {rows : List (Nat × Snapshot)} (h : ∀ r ∈ rows, First H r.2) :
    chainErrors H "" rows = [] ↔ rows.length ≤ 1 := by
  cases rows with
  | nil => simp [chainErrors]
  | cons r rows =>
    obtain ⟨id, s⟩ := r
    have hs : First H s := h (id, s) (List.mem_cons_self ..)
    cases rows with
    | nil => simp [chainErrors, hs.hash, hs.previous]
    | cons r' rows =>
      obtain ⟨id', s'⟩ := r'
      have hs' : First H s' := h (id', s') (by simp)
      have hne : s'.previousHash ≠ s.artifactHash := by
        rw [hs'.previous, hs.hash]
        exact (H.hex_ne_empty _).symm
      simp [chainErrors, hne]

theorem verifyChain_first {rows : List (Nat × Snapshot)} (h : ∀ r ∈ rows, First H r.2)
    (tenantId sourceId snapshotType : String) :
    verifyChain H rows tenantId sourceId snapshotType = (true, []) ↔
      (rows.filter (ofSource tenantId sourceId snapshotType)).length ≤ 1 := by
  have hperm := (stableSort_sortBy (fun r : Nat × Snapshot => r.2.sequenceNumber)
    (rows.filter (ofSource tenantId sourceId snapshotType))).perm
  have hfirst : ∀ r ∈ getChain rows tenantId sourceId snapshotType, First H r.2 := fun r hr =>
    h r (List.mem_of_mem_filter (hperm.mem_iff.mp hr))
  rw [← hperm.length_eq]
  show _ ↔ (getChain rows tenantId sourceId snapshotType).length ≤ 1
  rw [← chainErrors_first hfirst, verifyChain]
  simp

/-- Every chain of a table of such rows verifies if no two rows belong to one. -/
theorem verifyChains_first {rows : List (Nat × Snapshot)} (h : ∀ r ∈ rows, First H r.2) :
    (∀ tenantId sourceId snapshotType,
        verifyChain H rows tenantId sourceId snapshotType = (true, [])) ↔
      (rows.map fun r => r.2.key).Nodup := by
  have hcount : ∀ key : SourceKey, ((rows.map fun r => r.2.key).count key) =
      (rows.filter (ofSource key.tenantId key.sourceId key.snapshotType)).length := by
    intro key
    rw [List.count, List.countP_map, List.countP_eq_length_filter]
    congr 1
    refine List.filter_congr fun r _ => ?_
    cases key
    rw [Bool.eq_iff_iff]
    simp [ofSource, SnapshotColumns.key, and_assoc]
  rw [List.nodup_iff_count_le_one]
  constructor
  · intro hall key
    rw [hcount]
    exact (verifyChain_first h _ _ _).mp (hall _ _ _)
  · intro hall tenantId sourceId snapshotType
    have hle := hall ⟨tenantId, sourceId, snapshotType⟩
    rw [hcount] at hle
    exact (verifyChain_first h _ _ _).mpr hle

/-! ### Successful requests -/

/-- A request to store a snapshot. -/
structure StoreCall (F : Type) where
  headers : Headers
  clock : Clock
  req : SnapshotStoreRequest F

def StoreCall.request (c : StoreCall F) : Request F := ⟨c.headers, c.clock, .storeSnapshot c.req⟩

/-- The request is answered with a snapshot id. -/
def Succeeds (H : Digest) (limiter : RateLimiter) (auth : AuthModule) (s : Service)
    (c : StoreCall F) : Prop :=
  ∃ snapshotId artifactHash persistedAt,
    (s.handle H limiter auth c.request).1 = .stored snapshotId artifactHash persistedAt

/-- The service after requests to store, one after another. -/
def stores (H : Digest) (limiter : RateLimiter) (auth : AuthModule) (tenants : Dict String Bool) :
    System Service (StoreCall F) where
  initial := .fresh tenants
  step := fun s c => (api F H limiter auth tenants).step s (.request c.request)

/-- What the route does when it answers with a snapshot id. -/
theorem stored_rows {s : Service} {named : Option String} {clock : Clock} {ctx : Context}
    {req : SnapshotStoreRequest F} {snapshotId artifactHash persistedAt : String}
    (h : (storeSnapshot H limiter named s clock ctx req).1 =
      .stored snapshotId artifactHash persistedAt) :
    ∃ row, (storeSnapshot H limiter named s clock ctx req).2.snapshots.rows =
      s.snapshots.rows ++ [(s.snapshots.sequence + 1, row)] ∧ First H row ∧ row.key = req.key := by
  rcases storeSnapshot_cases H limiter named s clock ctx req with ⟨answer, heq, hfailed⟩ |
    ⟨payloadJson, s', -, hpersist, heq | ⟨s'', _, _, _, hlog, heq⟩⟩
  · rw [heq] at h
    rcases hfailed with rfl | rfl <;> cases h
  · rw [heq] at h
    cases h
  · obtain ⟨table, hinsert, rfl⟩ := persist_spec hpersist
    obtain ⟨_, _, -, -, rfl⟩ := log_spec hlog
    obtain ⟨hrows, -, -⟩ := AutoTable.rows_insert hinsert
    rw [heq]
    exact ⟨_, hrows, ⟨rfl, rfl, rfl⟩, rfl⟩

/-- A request that succeeds adds a first row of its chain. -/
theorem Succeeds.rows {s : Service} {c : StoreCall F} (h : Succeeds H limiter auth s c) :
    ∃ row, (s.handle H limiter auth c.request).2.snapshots.rows =
      s.snapshots.rows ++ [(s.snapshots.sequence + 1, row)] ∧ First H row ∧
        row.key = c.req.key := by
  obtain ⟨snapshotId, artifactHash, persistedAt, hanswer⟩ := h
  unfold Service.handle at hanswer ⊢
  cases hctx : getSecurityContext auth s c.request with
  | error refusal =>
    rw [hctx] at hanswer
    cases hanswer
  | ok ctx =>
    rw [hctx] at hanswer
    exact stored_rows hanswer

/-- Every request of the sequence succeeds. -/
def AllSucceed (H : Digest) (limiter : RateLimiter) (auth : AuthModule)
    (tenants : Dict String Bool) (calls : List (StoreCall F)) : Prop :=
  (stores H limiter auth tenants).Admits (Succeeds H limiter auth) calls

/-- The rows are those of the requests, each the first of its chain. -/
theorem rows_of_allSucceed {tenants : Dict String Bool} {calls : List (StoreCall F)}
    (h : AllSucceed H limiter auth tenants calls) :
    (∀ r ∈ ((stores H limiter auth tenants).after calls).snapshots.rows, First H r.2) ∧
      (((stores H limiter auth tenants).after calls).snapshots.rows.map fun r => r.2.key) =
        calls.map fun c => c.req.key := by
  induction calls using List.reverseRecOn with
  | nil => exact ⟨List.forall_mem_nil _, rfl⟩
  | append_singleton calls c ih =>
    obtain ⟨hcalls, hc⟩ := (System.admits_snoc _).mp h
    obtain ⟨hfirst, hkeys⟩ := ih hcalls
    obtain ⟨row, hrows, hrow, hkey⟩ := hc.rows
    have hafter : ((stores H limiter auth tenants).after (calls ++ [c])).snapshots.rows = _ :=
      (congrArg (fun s : Service => s.snapshots.rows) (System.after_snoc _ calls c)).trans hrows
    rw [hafter]
    constructor
    · intro r hr
      rcases List.mem_append.mp hr with hr | hr
      · exact hfirst r hr
      · rwa [List.mem_singleton.mp hr]
    · rw [List.map_append, List.map_append, hkeys, List.map_singleton, List.map_singleton, hkey]

variable (H limiter auth) in
/-- **Main theorem.** After requests that all succeed, every chain verifies if and only if no
two of them are for one tenant, source and type. -/
theorem chains_verify_iff (tenants : Dict String Bool) (calls : List (StoreCall F))
    (h : AllSucceed H limiter auth tenants calls) :
    (∀ tenantId sourceId snapshotType,
        verifyChain H ((stores H limiter auth tenants).after calls).snapshots.rows tenantId
          sourceId snapshotType = (true, [])) ↔
      (calls.map fun c => c.req.key).Nodup := by
  obtain ⟨hfirst, hkeys⟩ := rows_of_allSucceed h
  rw [verifyChains_first hfirst, hkeys]

/-! ### A second snapshot of one source -/

def storeCall (sourceId : String) (micros : Int) : StoreCall Literal where
  headers := acmeHeaders
  clock := clockAt micros
  req := ⟨"acme", sourceId, "state", .dict []⟩

theorem allSucceed_pair {first second : StoreCall Literal}
    (hfirst : Succeeds prefixDigest defaultLimiter acmeAuth (.fresh acmeTenants) first)
    (hsecond : Succeeds prefixDigest defaultLimiter acmeAuth
      ((stores prefixDigest defaultLimiter acmeAuth acmeTenants).after [first]) second) :
    AllSucceed prefixDigest defaultLimiter acmeAuth acmeTenants [first, second] := by
  show System.Admits _ _ (([] ++ [first]) ++ [second])
  rw [System.admits_snoc, System.admits_snoc]
  exact ⟨⟨fun before c behind h => by simp at h, hfirst⟩, hsecond⟩

/-- Two snapshots of one source are stored, and their chain is broken at the second. -/
theorem second_snapshot_breaks_chain :
    AllSucceed prefixDigest defaultLimiter acmeAuth acmeTenants [storeCall "s" 1, storeCall "s" 2] ∧
      verifyChain prefixDigest
        ((stores prefixDigest defaultLimiter acmeAuth acmeTenants).after
          [storeCall "s" 1, storeCall "s" 2]).snapshots.rows "acme" "s" "state" =
        (false, ["chain_break:snapshot_id=snap_s_2"]) :=
  ⟨allSucceed_pair ⟨_, _, _, rfl⟩ ⟨_, _, _, rfl⟩, by decide +kernel⟩

theorem chains_verify_two_sources :
    AllSucceed prefixDigest defaultLimiter acmeAuth acmeTenants [storeCall "s" 1, storeCall "t" 2] ∧
      ∀ tenantId sourceId snapshotType,
        verifyChain prefixDigest
          ((stores prefixDigest defaultLimiter acmeAuth acmeTenants).after
            [storeCall "s" 1, storeCall "t" 2]).snapshots.rows tenantId sourceId snapshotType =
          (true, []) := by
  have hall : AllSucceed prefixDigest defaultLimiter acmeAuth acmeTenants
      [storeCall "s" 1, storeCall "t" 2] := allSucceed_pair ⟨_, _, _, rfl⟩ ⟨_, _, _, rfl⟩
  exact ⟨hall, (chains_verify_iff prefixDigest defaultLimiter acmeAuth acmeTenants _ hall).mpr
    (by decide)⟩

end PiPlatform.Production
