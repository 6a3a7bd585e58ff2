import DemandPaging.Proofs.Reachable

/-!
What is followed beside the machine. A follower is told whenever the machine has come from one
layout to another, and whenever bytes of a page have been stored; it does not see what the
machine holds in its frames. Copies are followed piece by piece, since a page may leave its
frame for one piece and come back for the next.
-/

namespace DemandPaging

variable {arch : Architecture} {tolerated : Violation → Prop} {σ : Type}

/-- Whether the operation is not a copy, or one within a page. -/
def Vm.Operation.IsBrief : Vm.Operation → Prop
  | .copyToUser _ address bytes _ | .copyFromUser _ address bytes _ =>
    address.offset + bytes.size ≤ pageSize
  | _ => True

/-- How what is followed changes. -/
structure Follower (σ : Type) where
  /-- The machine has come from one layout to another. -/
  arrive : σ → Layout → Layout → σ
  /-- Bytes of a page have been overwritten. -/
  store : σ → UserPage → Nat → Bytes → σ

namespace Follower

variable (follower : Follower σ)

/-- What is followed after a copy into user memory, of which these pieces are left to store. -/
def storePieces (process : ProcessId) (base : VirtualAddress) (data : Bytes)
    (stackPointer : VirtualAddress) (state : σ) (vm : Vm arch) : List RangePiece → σ
  | [] => state
  | piece :: rest =>
    let start := piece.address.value - base.value
    let source := data.extract start (start + piece.length)
    match (vm.storePiece process piece source stackPointer).outcome with
    | .ok (.ok (), after) =>
      storePieces process base data stackPointer
        (follower.store (follower.arrive state vm.layout after.layout)
          (process, piece.address.page) piece.address.offset source) after rest
    | .ok (.error _, after) => follower.arrive state vm.layout after.layout
    | .error _ => state

/-- What is followed after a copy from user memory, of which these pieces are left to fetch. -/
def fetchPieces (process : ProcessId) (stackPointer : VirtualAddress) (state : σ)
    (vm : Vm arch) : List RangePiece → σ
  | [] => state
  | piece :: rest =>
    match (vm.fetchPiece process piece stackPointer).outcome with
    | .ok (.ok _, after) =>
      fetchPieces process stackPointer (follower.arrive state vm.layout after.layout) after rest
    | .ok (.error _, after) => follower.arrive state vm.layout after.layout
    | .error _ => state

/-- What is followed after an operation. -/
def after (state : σ) (vm : Vm arch) : Vm.Operation → σ
  | .copyToUser process address data stackPointer =>
    if Vm.inUserSpace arch address data.size then
      follower.storePieces process address data stackPointer state vm
        (RangePiece.ofRange address data.size)
    else
      state
  | .copyFromUser process address buffer stackPointer =>
    if Vm.inUserSpace arch address buffer.size then
      follower.fetchPieces process stackPointer state vm (RangePiece.ofRange address buffer.size)
    else
      state
  | operation =>
    match (vm.step operation).outcome with
    | .ok (_, after) => follower.arrive state vm.layout after.layout
    | .error _ => state

variable {follower} {state : σ} {vm last : Vm arch}

theorem after_of_yields {operation : Vm.Operation} {answer : Vm.Answer}
    (quiet : ¬operation.IsCopy) (yields : (vm.step operation).Yields (answer, last)) :
    follower.after state vm operation = follower.arrive state vm.layout last.layout := by
  have ended : (vm.step operation).outcome = .ok (answer, last) := yields
  cases operation with
  | copyToUser | copyFromUser => exact absurd trivial quiet
  | _ => simp only [after, ended]

theorem after_copyFromUser_keeps (kept : σ → Prop)
    (arrive : ∀ state before after, kept state → kept (follower.arrive state before after))
    (vm : Vm arch) (process : ProcessId) (address : VirtualAddress) (buffer : Bytes)
    (stackPointer : VirtualAddress) (first : kept state) :
    kept (follower.after state vm (.copyFromUser process address buffer stackPointer)) := by
  have pieces : ∀ (pieces : List RangePiece) (state : σ) (vm : Vm arch), kept state →
      kept (follower.fetchPieces process stackPointer state vm pieces) := by
    intro pieces
    induction pieces with
    | nil => exact fun _ _ holds => holds
    | cons piece rest ih =>
        intro state vm holds
        simp only [fetchPieces]
        cases (vm.fetchPiece process piece stackPointer).outcome with
        | error violation => exact holds
        | ok ended =>
            obtain ⟨result, after⟩ := ended
            cases result with
            | error cause => exact arrive state vm.layout after.layout holds
            | ok bytes => exact ih _ after (arrive state vm.layout after.layout holds)
  simp only [after]
  split
  · exact pieces _ state vm first
  · exact first

theorem after_of_brief {operation : Vm.Operation} (brief : operation.IsBrief) :
    follower.after state vm operation = state ∨ ∃ moved,
      follower.after state vm operation = follower.arrive state vm.layout moved ∨
        ∃ process address data stackPointer,
          operation = .copyToUser process address data stackPointer ∧
            follower.after state vm operation = follower.store
              (follower.arrive state vm.layout moved) (process, address.page) address.offset
                data := by
  cases operation with
  | copyToUser process address data stackPointer =>
      simp only [after]
      split
      · obtain empty | positive := Nat.eq_zero_or_pos data.size
        · simp [empty, RangePiece.ofRange, storePieces]
        · rw [RangePiece.ofRange_within positive brief]
          simp only [storePieces, Nat.sub_self, Nat.zero_add, Array.extract_size]
          cases (vm.storePiece process ⟨address, data.size⟩ data stackPointer).outcome with
          | error violation => exact .inl rfl
          | ok ended =>
              obtain ⟨result, moved⟩ := ended
              cases result with
              | error cause => exact .inr ⟨moved.layout, .inl rfl⟩
              | ok _ => exact .inr ⟨moved.layout, .inr ⟨_, _, _, _, rfl, rfl⟩⟩
      · exact .inl rfl
  | copyFromUser process address buffer stackPointer =>
      simp only [after]
      split
      · obtain empty | positive := Nat.eq_zero_or_pos buffer.size
        · simp [empty, RangePiece.ofRange, fetchPieces]
        · rw [RangePiece.ofRange_within positive brief]
          simp only [fetchPieces]
          cases (vm.fetchPiece process ⟨address, buffer.size⟩ stackPointer).outcome with
          | error violation => exact .inl rfl
          | ok ended =>
              obtain ⟨result, moved⟩ := ended
              cases result <;> exact .inr ⟨moved.layout, .inl rfl⟩
      · exact .inl rfl
  | _ =>
      simp only [after]
      split
      · rename_i last _
        exact .inr ⟨last.layout, .inl rfl⟩
      · exact .inl rfl

/-- A state that some run of operations leads to, with what was followed on the way. -/
inductive Reaches (follower : Follower σ) (first : σ) : Vm arch → σ → Prop
  | boot {vm : Vm arch} (booted : vm.Booted) : Reaches follower first vm first
  | step {vm after : Vm arch} {state : σ} {operation : Vm.Operation} {answer : Vm.Answer}
      (reaches : Reaches follower first vm state)
      (yields : (vm.step operation).Yields (answer, after)) :
      Reaches follower first after (follower.after state vm operation)

theorem Reaches.reachable {first : σ} (reaches : follower.Reaches first vm state) :
    Vm.Reachable vm := by
  induction reaches with
  | boot booted => exact .boot booted
  | step _ yields ih => exact .step ih yields

theorem Reaches.run {first : σ} (reaches : follower.Reaches first vm state)
    {operations : List Vm.Operation} (ran : vm.run? operations = some last) :
    ∃ state, follower.Reaches first last state := by
  refine Vm.run?_induction (motive := fun vm => ∃ state, follower.Reaches first vm state) ?_
    ⟨state, reaches⟩ ran
  intro vm after operation answer ⟨state, reaches⟩ yields
  exact ⟨_, reaches.step yields⟩

section Copies

variable {process : ProcessId} {address stackPointer : VirtualAddress}

/-- A copy into user memory, with what is followed: what each stored piece keeps, and what is
left when the copy ends. -/
theorem copyToUser_follows {data : Bytes} (invariant post : Nat → Layout → σ → Prop)
    (stored : ∀ start (piece : RangePiece) (layout moved : Layout) state,
      layout.Sound tolerated → invariant start layout state →
      piece.address.value = address.value + start →
      piece.address.offset + piece.length ≤ pageSize → start + piece.length ≤ data.size →
      Stored process piece (data.extract start (start + piece.length)) layout moved →
        invariant (start + piece.length) moved
          (follower.store (follower.arrive state layout moved) (process, piece.address.page)
            piece.address.offset (data.extract start (start + piece.length))))
    (refused : ∀ start (layout moved : Layout) state, invariant start layout state →
      Relation.ReflTransGen Shift layout moved →
        post start moved (follower.arrive state layout moved))
    (done : ∀ stop (layout : Layout) state, invariant stop layout state → post stop layout state)
    (consistent : vm.Consistent tolerated) (first : invariant 0 vm.layout state) :
    (vm.copyToUser process address data stackPointer).Satisfies tolerated fun (outcome, last) =>
      post outcome.copied last.layout
        (follower.after state vm (.copyToUser process address data stackPointer)) := by
  simp only [Vm.copyToUser, after]
  split
  · refine .mono (Vm.writePieces_satisfies
      (fun stop pieces now => ∃ state', invariant stop now.layout state' ∧
        follower.storePieces process address data stackPointer state' now pieces =
          follower.storePieces process address data stackPointer state vm
            (RangePiece.ofRange address data.size))
      (fun stop last => post stop last.layout (follower.storePieces process address data
        stackPointer state vm (RangePiece.ofRange address data.size)))
      ?_ ?_ ?_ (RangePiece.tiles_ofRange address data.size) consistent ⟨state, first, rfl⟩)
        fun _ h => h.2.2
    · intro start piece rest now after consistent ⟨state', holds, same⟩ place fits within yields
        outcome
      refine ⟨_, stored start piece now.layout after.layout state' (consistent.tenants.sound _) holds
        place fits within outcome, ?_⟩
      have origin : piece.address.value - address.value = start := by omega
      have ended : (now.storePiece process piece (data.extract start (start + piece.length))
        stackPointer).outcome = .ok (.ok (), after) := yields
      rw [← same]
      simp only [storePieces, origin, ended]
    · intro start piece rest now after cause _ ⟨state', holds, same⟩ place yields path
      have origin : piece.address.value - address.value = start := by omega
      have ended : (now.storePiece process piece (data.extract start (start + piece.length))
        stackPointer).outcome = .ok (.error cause, after) := yields
      rw [← same]
      simp only [storePieces, origin, ended]
      exact refused start now.layout after.layout state' holds path
    · intro now ⟨state', holds, same⟩
      rw [← same]
      exact done data.size now.layout state' holds
  · exact .pure (done 0 vm.layout state first)

theorem copyFromUser_follows {buffer : Bytes} (invariant post : Nat → Bytes → Layout → σ → Prop)
    (fetched : ∀ start (piece : RangePiece) (filled taken : Bytes) (layout moved : Layout) state,
      layout.Sound tolerated → filled.size = buffer.size → invariant start filled layout state →
      piece.address.value = address.value + start →
      piece.address.offset + piece.length ≤ pageSize → start + piece.length ≤ buffer.size →
      Fetched process piece taken layout moved →
        invariant (start + piece.length) (filled.overwrite start taken) moved
          (follower.arrive state layout moved))
    (refused : ∀ start filled (layout moved : Layout) state, invariant start filled layout state →
      Relation.ReflTransGen Shift layout moved →
        post start filled moved (follower.arrive state layout moved))
    (done : ∀ stop filled (layout : Layout) state, invariant stop filled layout state →
      post stop filled layout state)
    (consistent : vm.Consistent tolerated) (first : invariant 0 buffer vm.layout state) :
    (vm.copyFromUser process address buffer stackPointer).Satisfies tolerated
      fun (outcome, filled, last) => post outcome.copied filled last.layout
        (follower.after state vm (.copyFromUser process address buffer stackPointer)) := by
  simp only [Vm.copyFromUser, after]
  split
  · refine .mono (Vm.readPieces_satisfies
      (fun stop pieces filled now => ∃ state', invariant stop filled now.layout state' ∧
        follower.fetchPieces process stackPointer state' now pieces =
          follower.fetchPieces process stackPointer state vm
            (RangePiece.ofRange address buffer.size))
      (fun stop filled last => post stop filled last.layout (follower.fetchPieces process
        stackPointer state vm (RangePiece.ofRange address buffer.size)))
      ?_ ?_ ?_ rfl (RangePiece.tiles_ofRange address buffer.size) consistent ⟨state, first, rfl⟩)
        fun _ h => h.2.2
    · intro start piece rest filled bytes now after consistent full ⟨state', holds, same⟩ place fits
        within yields outcome
      refine ⟨_, fetched start piece filled bytes now.layout after.layout state'
        (consistent.tenants.sound _) full holds place fits within outcome, ?_⟩
      have ended : (now.fetchPiece process piece stackPointer).outcome =
        .ok (.ok bytes, after) := yields
      rw [← same]
      simp only [fetchPieces, ended]
    · intro start piece rest filled now after cause _ ⟨state', holds, same⟩ yields path
      have ended : (now.fetchPiece process piece stackPointer).outcome =
        .ok (.error cause, after) := yields
      rw [← same]
      simp only [fetchPieces, ended]
      exact refused start filled now.layout after.layout state' holds path
    · intro filled now ⟨state', holds, same⟩
      rw [← same]
      exact done buffer.size filled now.layout state' holds
  · exact .pure (done 0 buffer vm.layout state first)

end Copies

end Follower
end DemandPaging
