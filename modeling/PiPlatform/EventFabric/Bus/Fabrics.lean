import PiPlatform.EventFabric.Bus.Semantic

/-! Any number of processes that call the fabric.

A process takes the trust check, one step for each parent it looks up, and the two steps of
the append; between them any other process may take any steps. `Wired` relates a run to the
run of the bus under it: what a process has pending is the append its call asks for, and the
calls that returned are those whose events were written. A process with nobody in between
leaves what `run` leaves (`run_alone`). -/
namespace PiPlatform.EventFabric

open Library Library.Json Library.Python

variable {P F : Type} [FloatCodec F] [SetText F] (H : Digest)

/-- A call whose trust level passed, and the parents it has still to look up. -/
structure Underway (F : Type) where
  call : FabricCall F
  semantic : SemanticCall F
  unchecked : List String

/-- The bus and what its processes call the fabric for. -/
structure Fabrics (P F : Type) where
  world : World P F
  underway : P → Option (Underway F)
  /-- The calls that returned, in the order their events were written. -/
  written : List (FabricCall F)

inductive FabricStep (P F : Type) where
  | begin (p : P) (fabric : PiSemanticEventFabric F) (call : FabricCall F)
  | check (p : P)
  | read (p : P)
  | transact (p : P)
  | abort (p : P) (error : PyError)

namespace Fabrics
variable [DecidableEq P]

def start : Fabrics P F := ⟨World.start, fun _ => none, []⟩

/-- The call of `p` has raised. -/
def drop (s : Fabrics P F) (p : P) : Fabrics P F :=
  { s with underway := Function.update s.underway p none }

/-- One step of one process; a process with a call under way begins no other. -/
def next (s : Fabrics P F) : FabricStep P F → Fabrics P F
  | .begin p fabric call =>
    match s.underway p with
    | some _ => s
    | none =>
      match call.semantic H with
      | .error _ => s
      | .ok semantic =>
        if fabric.below semantic.trustLevel fabric.minTrustThreshold then s
        else
          { s with
            underway := Function.update s.underway p (some ⟨call, semantic, semantic.parents⟩) }
  | .check p =>
    match s.underway p with
    | some ⟨call, semantic, parentHash :: rest⟩ =>
      if checkEventHashExists s.world.db parentHash then
        { s with underway := Function.update s.underway p (some ⟨call, semantic, rest⟩) }
      else s.drop p
    | _ => s
  | .read p =>
    match s.underway p with
    | some ⟨_, semantic, []⟩ =>
      match semantic.appendCall H with
      | .error _ => s.drop p
      | .ok append =>
        let world := World.next H s.world (.read p append)
        -- Nothing is pending when the payload has no JSON: the call has raised.
        if (world.pending p).isSome then { s with world } else { s.drop p with world }
    | _ => s
  | .transact p =>
    match s.underway p, s.world.pending p with
    | some u, some _ =>
      { world := World.next H s.world (.transact p)
        underway := Function.update s.underway p none
        written := s.written ++ (committed H s.world (.transact p)).map fun _ => u.call }
    | _, _ => s
  | .abort p error => { s.drop p with world := World.next H s.world (.abort p error) }

end Fabrics

/-- The processes on one store. -/
def fabrics (P F : Type) [DecidableEq P] [FloatCodec F] [SetText F] (H : Digest) :
    System (Fabrics P F) (FabricStep P F) where
  initial := Fabrics.start
  step := Fabrics.next H

/-! ### The bus under the fabric -/

section Processes
variable [DecidableEq P] {H} {s : Fabrics P F} {w : World P F} {semantic : SemanticCall F} {p : P}

/-- What a step of the fabric does to the bus. -/
def FabricStep.onBus (H : Digest) (s : Fabrics P F) : FabricStep P F → List (Step P F)
  | .begin _ _ _ => []
  | .check _ => []
  | .read p =>
    match s.underway p with
    | some ⟨_, semantic, []⟩ =>
      match semantic.appendCall H with
      | .error _ => []
      | .ok append => [.read p append]
    | _ => []
  | .transact p =>
    match s.underway p, s.world.pending p with
    | some _, some _ => [.transact p]
    | _, _ => []
  | .abort p error => [.abort p error]

theorem next_world (s : Fabrics P F) (a : FabricStep P F) :
    (s.next H a).world = (a.onBus H s).foldl (World.next H) s.world := by
  cases a with
  | begin p fabric call =>
    simp only [Fabrics.next, FabricStep.onBus, List.foldl_nil]
    split
    · rfl
    · split
      · rfl
      · split <;> rfl
  | check p =>
    simp only [Fabrics.next, FabricStep.onBus, List.foldl_nil]
    split
    · split <;> rfl
    · rfl
  | read p =>
    simp only [Fabrics.next, FabricStep.onBus]
    split
    · split
      · rfl
      · split <;> rfl
    · rfl
  | transact p =>
    simp only [Fabrics.next, FabricStep.onBus]
    split <;> rfl
  | abort p error => rfl

/-- A run of the fabric is a run of the bus. -/
def fabricsOnBus (P F : Type) [DecidableEq P] [FloatCodec F] [SetText F] (H : Digest) :
    Simulation (fabrics P F H) (appenders P F H) where
  Rel s w := s.world = w
  answer s a := a.onBus H s
  initial := rfl
  step := by
    rintro s w a rfl
    exact next_world s a

theorem safe_next (h : Safe H s.world) (a : FabricStep P F) : Safe H (s.next H a).world := by
  have hfold : ∀ (acts : List (Step P F)) (w : World P F), Safe H w →
      Safe H (acts.foldl (World.next H) w) := by
    intro acts
    induction acts with
    | nil => exact fun w hw => hw
    | cons act acts ih => exact fun w hw => ih _ (hw.next act)
  rw [next_world]
  exact hfold _ _ h

variable (H) in
theorem fabrics_safe (run : List (FabricStep P F)) :
    Safe H ((fabrics P F H).after run).world :=
  (fabrics P F H).invariant (fun s => Safe H s.world) (safe_start H) (fun _ a h => safe_next h a)
    run

/-- What a process does is what its call asks for. -/
structure Wired (H : Digest) (s : Fabrics P F) : Prop where
  semantic : ∀ p u, s.underway p = some u → u.call.semantic H = .ok u.semantic
  pending : ∀ p q, s.world.pending p = some q →
    ∃ u, s.underway p = some u ∧ u.unchecked = [] ∧ u.semantic.appendCall H = .ok q.call
  written : s.written.map (·.appendCall H) = s.world.returnedCalls.map .ok

theorem appendCall_eq {call : FabricCall F}
    (h : call.semantic H = .ok semantic) : call.appendCall H = semantic.appendCall H := by
  rw [FabricCall.appendCall, h]
  rfl

/-- What is pending after a `read` was pending before, or is the call read. -/
theorem pending_read {p p' : P} {call : AppendCall F} {q : Pending F}
    (h : (World.next H w (.read p call)).pending p' = some q) :
    w.pending p' = some q ∨ p' = p ∧ q.call = call := by
  simp only [World.next] at h
  split at h
  · exact .inl h
  · split at h
    · exact .inl (pending_finish h)
    · by_cases hp : p' = p
      · subst hp
        obtain rfl : _ = q := by simpa using h
        exact .inr ⟨rfl, rfl⟩
      · exact .inl (by simpa [Function.update_of_ne hp] using h)

/-- A transaction or an abort leaves its process with nothing pending. -/
theorem pending_ended {p p' : P} {a : Step P F} {q : Pending F}
    (ha : a = .transact p ∨ ∃ e, a = .abort p e)
    (h : (World.next H w a).pending p' = some q) : w.pending p' = some q ∧ p' ≠ p := by
  cases hq : w.pending p with
  | none =>
    have hsame : World.next H w a = w := by
      obtain rfl | ⟨e, rfl⟩ := ha <;> simp only [World.next, hq]
    rw [hsame] at h
    refine ⟨h, ?_⟩
    rintro rfl
    rw [hq] at h
    cases h
  | some q' =>
    have hended : ∃ result db, World.next H w a = w.finish p q'.call result db := by
      obtain rfl | ⟨e, rfl⟩ := ha <;> simp only [World.next, hq] <;> exact ⟨_, _, rfl⟩
    obtain ⟨result, db, hended⟩ := hended
    rw [hended] at h
    refine ⟨pending_finish h, ?_⟩
    rintro rfl
    simp [World.finish] at h

omit [DecidableEq P] in
/-- A transaction commits the pending call or nothing. -/
theorem committed_transact {q : Pending F} (hq : w.pending p = some q) :
    committed H w (.transact p) = [] ∨ committed H w (.transact p) = [q.call] := by
  simp only [committed, hq]
  split
  · exact .inr rfl
  · exact .inl rfl

omit [DecidableEq P] in
theorem wired_start : Wired H (Fabrics.start : Fabrics P F) where
  semantic := fun _ _ h => nomatch h
  pending := fun _ _ h => nomatch h
  written := rfl

omit [DecidableEq P] in
theorem Wired.idle (h : Wired H s) (hp : s.underway p = none) :
    s.world.pending p = none := by
  by_contra hne
  obtain ⟨q, hq⟩ := Option.ne_none_iff_exists'.mp hne
  obtain ⟨u, hu, -⟩ := h.pending p q hq
  rw [hp] at hu
  cases hu

/-- A process may go on to another call, or to none, while nothing of it is pending. -/
theorem Wired.move (h : Wired H s) (hp : s.world.pending p = none)
    {u : Option (Underway F)} (hu : ∀ v ∈ u, v.call.semantic H = .ok v.semantic) :
    Wired H { s with underway := Function.update s.underway p u } where
  semantic p' v hv := by
    by_cases hp' : p' = p
    · subst hp'
      exact hu v (by simpa using hv)
    · exact h.semantic p' v (by simpa [Function.update_of_ne hp'] using hv)
  pending p' q hq := by
    have hp' : p' ≠ p := by
      rintro rfl
      rw [hp] at hq
      cases hq
    simpa [Function.update_of_ne hp'] using h.pending p' q hq
  written := h.written

theorem returnedCalls_read {call : AppendCall F} :
    (World.next H w (.read p call)).returnedCalls = w.returnedCalls := by
  simp [committed_next, committed]

theorem returnedCalls_abort {e : PyError} :
    (World.next H w (.abort p e)).returnedCalls = w.returnedCalls := by
  simp [committed_next, committed]

theorem Wired.read (h : Wired H s) (p : P) : Wired H (s.next H (.read p)) := by
  simp only [Fabrics.next]
  split
  next call semantic hu =>
    have hfree : ∀ q, s.world.pending p = some q → semantic.appendCall H = .ok q.call := by
      intro q hq
      obtain ⟨v, hv, -, happend⟩ := h.pending p q hq
      cases hu.symm.trans hv
      exact happend
    split
    next e hrefused =>
      refine h.move ?_ fun v hv => nomatch hv
      by_contra hne
      obtain ⟨q, hq⟩ := Option.ne_none_iff_exists'.mp hne
      rw [hfree q hq] at hrefused
      cases hrefused
    next append happend =>
      have hread : Wired H { s with world := World.next H s.world (.read p append) } := by
        refine ⟨h.semantic, fun p' q hq => ?_, ?_⟩
        · obtain hq | ⟨rfl, rfl⟩ := pending_read (H := H) hq
          · exact h.pending p' q hq
          · exact ⟨_, hu, rfl, happend⟩
        · rw [returnedCalls_read]
          exact h.written
      split
      · exact hread
      · next hnone => exact hread.move (by simpa using hnone) fun v hv => nomatch hv
  · exact h

theorem Wired.transact (h : Wired H s) (p : P) : Wired H (s.next H (.transact p)) := by
  simp only [Fabrics.next]
  split
  next u q hu hq =>
    obtain ⟨v, hv, -, happend⟩ := h.pending p q hq
    cases hu.symm.trans hv
    refine ⟨fun p' v hv => ?_, fun p' q' hq' => ?_, ?_⟩
    · by_cases hp : p' = p
      · subst hp
        simp at hv
      · exact h.semantic p' v (by simpa [Function.update_of_ne hp] using hv)
    · obtain ⟨hq', hp⟩ := pending_ended (.inl rfl) hq'
      simpa [Function.update_of_ne hp] using h.pending p' q' hq'
    · have hcall : u.call.appendCall H = .ok q.call := by
        rw [appendCall_eq (h.semantic p u hu), happend]
      rw [committed_next, List.map_append, List.map_append, h.written]
      obtain hnone | hone := committed_transact (H := H) hq
      · rw [hnone]
        rfl
      · rw [hone, List.map_singleton, List.map_singleton, List.map_singleton, hcall]
  · exact h

theorem Wired.next (h : Wired H s) (a : FabricStep P F) : Wired H (s.next H a) := by
  cases a with
  | begin p fabric call =>
    simp only [Fabrics.next]
    split
    · exact h
    · next hidle =>
      split
      · exact h
      · next semantic hsemantic =>
        split
        · exact h
        · refine h.move (h.idle hidle) fun v hv => ?_
          obtain rfl := Option.mem_some_iff.mp hv
          exact hsemantic
  | check p =>
    simp only [Fabrics.next]
    split
    next call semantic parentHash rest hu =>
      -- A call that still has parents to look up has nothing pending.
      have hp : s.world.pending p = none := by
        by_contra hne
        obtain ⟨q, hq⟩ := Option.ne_none_iff_exists'.mp hne
        obtain ⟨v, hv, hchecked, -⟩ := h.pending p q hq
        cases hu.symm.trans hv
        cases hchecked
      split
      · refine h.move hp fun v hv => ?_
        obtain rfl := Option.mem_some_iff.mp hv
        exact h.semantic p ⟨call, semantic, parentHash :: rest⟩ hu
      · exact h.move hp fun v hv => nomatch hv
    · exact h
  | read p => exact h.read p
  | transact p => exact h.transact p
  | abort p e =>
    refine ⟨fun p' v hv => ?_, fun p' q hq => ?_, ?_⟩
    · by_cases hp : p' = p
      · subst hp
        simp [Fabrics.next, Fabrics.drop] at hv
      · exact h.semantic p' v (by simpa [Fabrics.next, Fabrics.drop, Function.update_of_ne hp]
          using hv)
    · obtain ⟨hq, hp⟩ := pending_ended (H := H) (.inr ⟨e, rfl⟩) hq
      simpa [Fabrics.next, Fabrics.drop, Function.update_of_ne hp] using h.pending p' q hq
    · show s.written.map _ = (World.next H s.world (.abort p e)).returnedCalls.map _
      rw [returnedCalls_abort]
      exact h.written

variable (H) in
theorem wired_after (run : List (FabricStep P F)) : Wired H ((fabrics P F H).after run) :=
  (fabrics P F H).invariant (Wired H) wired_start (fun _ a h => h.next a) run

/-- The event of a call that returned. -/
def Wrote (H : Digest) (call : FabricCall F) (e : DomainEvent F) : Prop :=
  ∃ append text head, call.appendCall H = .ok append ∧
    canonicalJson append.payload.value = .ok text ∧ e = append.event H text head

omit [DecidableEq P] in
theorem wrote_of_made (hmade : Made H w) {written : List (FabricCall F)}
    (h : written.map (·.appendCall H) = w.returnedCalls.map .ok) :
    List.Forall₂ (Wrote H) written w.returned := by
  have hended : ∀ (ended : List (P × AppendCall F × Except PyError (DomainEvent F)))
      (written : List (FabricCall F)), (∀ c ∈ ended, c ∈ w.ended) →
      written.map (·.appendCall H) =
        (ended.filterMap fun c => c.2.2.toOption.map fun _ => c.2.1).map .ok →
      List.Forall₂ (Wrote H) written (ended.filterMap fun c => c.2.2.toOption) := by
    intro ended
    induction ended with
    | nil =>
      intro written _ hwritten
      rw [List.map_eq_nil_iff.mp hwritten]
      exact .nil
    | cons c ended ih =>
      intro written hin hwritten
      obtain ⟨hc, hrest⟩ := List.forall_mem_cons.mp hin
      obtain ⟨p, append, result⟩ := c
      cases result with
      | error e => exact ih written hrest hwritten
      | ok e =>
        obtain ⟨call, more, rfl, hcall, hmore⟩ := List.map_eq_cons_iff.mp hwritten
        obtain ⟨text, head, htext, he⟩ := hmade p append e hc
        exact .cons ⟨append, text, head, hcall, htext, he⟩ (ih more hrest hmore)
  exact hended w.ended written (fun c hc => hc) h

variable (H) in
/-- Each call that returned wrote its event, in this order. -/
theorem written_wrote (run : List (FabricStep P F)) :
    List.Forall₂ (Wrote H) ((fabrics P F H).after run).written
      ((fabrics P F H).after run).world.returned := by
  refine wrote_of_made ?_ (wired_after H run).written
  rw [show ((fabrics P F H).after run).world = _ from (fabricsOnBus P F H).related run]
  exact made_after H _

/-! ### One process alone -/

/-- The steps of a call with so many parents. -/
def FabricCall.steps (p : P) (fabric : PiSemanticEventFabric F) (call : FabricCall F)
    (parents : Nat) : List (FabricStep P F) :=
  .begin p fabric call :: (List.replicate parents (.check p) ++ [.read p, .transact p])

theorem foldl_checks_idle (hp : s.underway p = none) (n : Nat) :
    (List.replicate n (FabricStep.check p)).foldl (Fabrics.next H) s = s := by
  induction n with
  | zero => rfl
  | succ n ih =>
    rw [List.replicate_succ, List.foldl_cons]
    simpa only [Fabrics.next, hp] using ih

/-- A process that looks up its parents alone does what the loop does. -/
theorem foldl_checks {call : FabricCall F}
    {parents : List String} (hp : s.underway p = some ⟨call, semantic, parents⟩) :
    (List.replicate parents.length (FabricStep.check p)).foldl (Fabrics.next H) s =
      match checkParents s.world.db parents with
      | .ok () => { s with underway := Function.update s.underway p (some ⟨call, semantic, []⟩) }
      | .error _ => s.drop p := by
  induction parents generalizing s with
  | nil =>
    rw [List.length_nil, List.replicate_zero, List.foldl_nil, checkParents, ← hp,
      Function.update_eq_self]
  | cons parentHash rest ih =>
    rw [List.length_cons, List.replicate_succ, List.foldl_cons, checkParents]
    by_cases hknown : checkEventHashExists s.world.db parentHash
    · have hnext : s.next H (.check p) =
          { s with underway := Function.update s.underway p (some ⟨call, semantic, rest⟩) } := by
        simp only [Fabrics.next, hp, if_pos hknown]
      rw [if_pos hknown, hnext, ih (Function.update_self ..)]
      cases checkParents s.world.db rest <;> simp [Fabrics.drop]
    · have hnext : s.next H (.check p) = s.drop p := by
        simp only [Fabrics.next, hp]
        exact if_neg hknown
      rw [if_neg hknown, hnext]
      exact foldl_checks_idle (Function.update_self ..) rest.length

/-- A process with nobody in between leaves what `run` leaves. -/
theorem run_alone (h : Wired H s) (hp : s.underway p = none)
    (fabric : PiSemanticEventFabric F) (call : FabricCall F)
    (hsemantic : call.semantic H = .ok semantic) :
    ((call.steps p fabric semantic.parents.length).foldl (Fabrics.next H) s).world.db =
      (fabric.run H s.world.db call).2 := by
  have hidle := h.idle hp
  rw [FabricCall.steps, List.foldl_cons, List.foldl_append, PiSemanticEventFabric.run, hsemantic]
  by_cases htrust : fabric.below semantic.trustLevel fabric.minTrustThreshold
  · have hnext : s.next H (.begin p fabric call) = s := by
      simp only [Fabrics.next, hp, hsemantic, if_pos htrust]
    rw [hnext, foldl_checks_idle hp]
    simp only [List.foldl_cons, List.foldl_nil, Fabrics.next, hp, bind, Except.bind, if_pos htrust]
  · have hnext : s.next H (.begin p fabric call) =
        { s with
          underway := Function.update s.underway p (some ⟨call, semantic, semantic.parents⟩) } := by
      simp only [Fabrics.next, hp, hsemantic]
      exact if_neg htrust
    rw [hnext, foldl_checks (Function.update_self ..)]
    cases hparents : checkParents s.world.db semantic.parents with
    | error e =>
      simp only [List.foldl_cons, List.foldl_nil, Fabrics.next, Fabrics.drop, Function.update_self,
        bind, Except.bind, if_neg htrust, hparents]
    | ok u =>
      cases happend : semantic.appendCall H with
      | error e =>
        simp only [List.foldl_cons, List.foldl_nil, Fabrics.next, Fabrics.drop,
          Function.update_self, bind, Except.bind, if_neg htrust, hparents, happend]
      | ok append =>
        have hdb : (World.next H (World.next H s.world (.read p append)) (.transact p)).db =
            (EventFabric.append H s.world.db append).2 := by
          rw [next_append H hidle]
          rfl
        simp only [bind, Except.bind, if_neg htrust, hparents, happend]
        rw [← hdb]
        generalize hread : World.next H s.world (.read p append) = w
        cases hpending : w.pending p with
        | some q => simp [Fabrics.next, happend, hread, hpending]
        | none =>
          have hstill : World.next H w (.transact p) = w := by simp only [World.next, hpending]
          rw [hstill]
          simp [Fabrics.next, Fabrics.drop, happend, hread, hpending]

end Processes

/-- The threshold is 0.0, which no level of the samples is below. -/
def openFabric : PiSemanticEventFabric Literal where
  minTrustThreshold := FloatCodec.read ['0', '.', '0']
  below := fun _ _ => false

end PiPlatform.EventFabric
