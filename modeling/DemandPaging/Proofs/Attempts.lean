import DemandPaging.Proofs.Questions

/-!
Searches that fail. The attempts are enough to come to every frame of the ring twice, however
many pages are spared on the way, so each page was refused or reported accessed more than once.
All that such a search leaves behind is the place of the hand.
-/

namespace DemandPaging

variable {arch : Architecture} {σ : Type}

theorem timesReported_mono {calls more : List OwnerCall} (grows : calls <+: more)
    (owner : ProcessId × PageNumber) : timesReported calls owner ≤ timesReported more owner :=
  grows.sublist.countP_le

namespace Sweep

variable {owners : FrameOwners σ} {ownerOf : FrameNumber → Option (ProcessId × PageNumber)}
  {contents : FrameNumber → Page} {order before after final : List FrameNumber} {attempts : Nat}
  {noted left : σ × List OwnerCall} {turns : List Turn} {result : Except VmError FrameNumber}
  {frame : FrameNumber} {owner : ProcessId × PageNumber}

theorem calls_prefix
    (sweep : Sweep owners.noting ownerOf contents order attempts noted turns result final left) :
    noted.2 <+: left.2 := by
  induction sweep with
  | spare _ tested _ ih =>
      rw [FrameTable.noting_test tested] at ih
      exact (List.prefix_append ..).trans ih
  | refuse _ tested refuses _ ih =>
      rw [FrameTable.noting_evict refuses, FrameTable.noting_test tested] at ih
      exact ((List.prefix_append ..).trans (List.prefix_append ..)).trans ih
  | giveUp _ tested answers | take _ tested answers =>
      rw [FrameTable.noting_evict answers, FrameTable.noting_test tested]
      exact (List.prefix_append ..).trans (List.prefix_append ..)

theorem none_granted
    (sweep : Sweep owners.noting ownerOf contents order attempts noted turns result final left)
    (failed : result.isOk = false) {process : ProcessId} {page : PageNumber} {written : Page}
    (granted : .evicted process page written true ∈ left.2) :
    .evicted process page written true ∈ noted.2 := by
  induction sweep with
  | spare _ tested _ ih =>
      have before := ih failed granted
      rw [FrameTable.noting_test tested] at before
      simpa using before
  | refuse _ tested refuses _ ih =>
      have before := ih failed granted
      rw [FrameTable.noting_evict refuses, FrameTable.noting_test tested] at before
      simpa [Except.isOk, Except.toBool] using before
  | giveUp _ tested refuses =>
      rw [FrameTable.noting_evict refuses, FrameTable.noting_test tested] at granted
      simpa [Except.isOk, Except.toBool] using granted
  | take => cases failed

/-- A search that fails has asked to move the page in a frame, or found it accessed each of the
times that it came by. Coming by so many times takes an attempt at most for each of the frames
that are passed on the way. -/
theorem asks (sweep : Sweep owners.noting ownerOf contents order attempts noted turns result final
      left)
    (failed : result.isOk = false) (owned : ownerOf frame = some owner) (rounds : Nat)
    (split : order = before ++ frame :: after)
    (enough : before.length + rounds * order.length < attempts) :
    .evicted owner.1 owner.2 (contents frame) false ∈ left.2 ∨
      timesReported noted.2 owner + rounds < timesReported left.2 owner := by
  induction sweep generalizing before after rounds with
  | @spare first rest final attempts held noted cleared left turns result owned' tested onward ih =>
      have told := FrameTable.noting_test tested
      have length : (rest ++ [first]).length = (first :: rest).length := by simp
      cases before with
      | nil =>
          obtain ⟨rfl, rfl⟩ := List.cons.inj split
          cases owned.symm.trans owned'
          have counted : timesReported cleared.2 owner = timesReported noted.2 owner + 1 := by
            rw [told, timesReported_concat, if_pos (by simp [OwnerCall.reports])]
          cases rounds with
          | zero =>
              have grows := timesReported_mono onward.calls_prefix owner
              exact .inr (by omega)
          | succ rounds =>
              rw [Nat.succ_mul] at enough
              refine (ih failed rounds rfl ?_).imp_right fun more => by omega
              rw [length]
              simp only [List.length_nil, List.length_cons] at enough ⊢
              omega
      | cons _ before =>
          obtain ⟨rfl, rfl⟩ := List.cons.inj split
          have grows : timesReported noted.2 owner ≤ timesReported cleared.2 owner :=
            timesReported_mono (told ▸ List.prefix_append ..) owner
          refine (ih failed rounds (List.append_assoc before (frame :: after) [first]) ?_).imp_right
            fun more => by omega
          rw [length]
          exact Nat.lt_of_le_of_lt (Nat.add_le_add_right (Nat.le_succ _) _) enough
  | @refuse first rest final attempts held noted searched refused left turns cause result owned'
      tested refuses onward ih =>
      have told := FrameTable.noting_evict refuses
      have length : (rest ++ [first]).length = (first :: rest).length := by simp
      cases before with
      | nil =>
          obtain ⟨rfl, rfl⟩ := List.cons.inj split
          cases owned.symm.trans owned'
          exact .inl (onward.calls_prefix.subset (told ▸ by simp [Except.isOk, Except.toBool]))
      | cons _ before =>
          obtain ⟨rfl, rfl⟩ := List.cons.inj split
          have grows : timesReported noted.2 owner ≤ timesReported refused.2 owner := by
            rw [FrameTable.noting_test tested] at told
            exact timesReported_mono (told ▸ (List.prefix_append ..).trans (List.prefix_append ..))
              owner
          refine (ih failed rounds (List.append_assoc before (frame :: after) [first]) ?_).imp_right
            fun more => by omega
          rw [length]
          rw [List.length_cons, Nat.add_right_comm] at enough
          exact Nat.lt_of_succ_lt_succ enough
  | @giveUp first rest held noted searched refused cause owned' tested refuses =>
      cases before with
      | nil =>
          obtain ⟨rfl, rfl⟩ := List.cons.inj split
          cases owned.symm.trans owned'
          exact .inl (FrameTable.noting_evict refuses ▸ by simp [Except.isOk, Except.toBool])
      | cons _ before =>
          rw [List.length_cons] at enough
          omega
  | take => cases failed

end Sweep

namespace FrameTable

variable {table after : FrameTable arch} {owners : FrameOwners σ} {state left : σ}
  {cause : VmError}

theorem evictWithin_intact (attempts : Nat) :
    (table.evictWithin owners attempts state).Satisfies (fun _ => True) fun (result, left, _) =>
      result.isOk = false → left = { table with handIndex := left.handIndex } := by
  refine .mono (evictWithin_ends attempts) ?_
  rintro ⟨result, left, _⟩ ended failed
  cases result with
  | ok frame => cases failed
  | error cause => exact ended

theorem evict_of_acquire {request : FrameRequest} {owner : ProcessId} {page : PageNumber}
    (fails : (table.acquire owners state request owner page).Yields (.error cause, after, left)) :
    (table.evict owners state).Yields (.error cause, after, left) := by
  unfold acquire at fails
  split at fails
  · obtain ⟨tracking, _, same⟩ := Run.yields_bind.mp fails
    cases same
  · obtain ⟨⟨result, searched, moved⟩, yields, rest⟩ := Run.yields_bind.mp fails
    cases result with
    | ok frame =>
        obtain ⟨tracking, _, same⟩ := Run.yields_bind.mp rest
        cases same
    | error reason =>
        cases required : request.required with
        | true =>
            dsimp only at rest
            rw [if_pos required] at rest
            cases rest
        | false =>
            dsimp only at rest
            rw [if_neg (by simp [required])] at rest
            cases rest
            exact yields

section Failed

variable {ring : List FrameNumber} {calls : List OwnerCall}

theorem evict_none_granted (wellFormed : table.WellFormed (fun _ => True) ring)
    (fails : (table.evict owners.noting (state, [])).Yields (.error cause, after, left, calls))
    (process : ProcessId) (page : PageNumber) (contents : Page) :
    .evicted process page contents true ∉ calls := by
  obtain ⟨order, fromHand⟩ := wellFormed.isRing.exists_order
  have rotated := fromHand.isRotated wellFormed.isRing
  cases order with
  | nil =>
      unfold evict at fails
      rw [evictWithin_of_hand_none fromHand.hand] at fails
      cases fails
      exact List.not_mem_nil
  | cons first rest =>
      obtain ⟨_, _, _, _, sweep, _⟩ :=
        (evictWithin_sweeps wellFormed rotated fromHand.hand _).of_yields fails
      intro granted
      cases sweep.none_granted rfl granted

/-- A search that fails has asked for each page in the ring, or found it accessed twice. -/
theorem evict_asks (wellFormed : table.WellFormed (fun _ => True) ring)
    (fails : (table.evict owners.noting (state, [])).Yields (.error cause, after, left, calls))
    {frame : FrameNumber} {held : ProcessId × PageNumber} (queues : table.Queues frame held) :
    .evicted held.1 held.2 (table.pool.page frame) false ∈ calls ∨
      1 < timesReported calls held := by
  obtain ⟨member, owned⟩ := wellFormed.isRing.queues_iff.mp queues
  obtain ⟨order, fromHand⟩ := wellFormed.isRing.exists_order
  have rotated := fromHand.isRotated wellFormed.isRing
  obtain ⟨before, behind, split⟩ := List.append_of_mem (rotated.mem_iff.mpr member)
  cases order with
  | nil => cases before <;> cases split
  | cons first rest =>
      obtain ⟨turns, final, _, _, sweep, _⟩ :=
        (evictWithin_sweeps wellFormed rotated fromHand.hand _).of_yields fails
      refine (sweep.asks rfl owned 1 split ?_).imp_right fun more => more
      have length := congrArg List.length split
      rw [wellFormed.isRing.counted, ← rotated.perm.length_eq]
      simp only [List.length_append, List.length_cons] at length ⊢
      omega

theorem evict_reports_once (wellFormed : table.WellFormed (fun _ => True) ring)
    (settles : table.Settles owners state)
    (fails : (table.evict owners.noting (state, [])).Yields (.error cause, after, left, calls))
    {frame : FrameNumber} {held : ProcessId × PageNumber} (queues : table.Queues frame held) :
    timesReported calls held ≤ 1 := by
  have answers := noting_answers wellFormed.isRing settles (.any table owners state)
  have length := wellFormed.isRing.counted
  have search := evictWithin_satisfies wellFormed answers (2 * table.queued)
    (.refl table owners state) ?_
  · exact (search.of_yields fails).2.2.2.once frame held queues
  · intro nonempty
    have := List.length_pos_iff.mpr nonempty
    omega

end Failed

/-- If no frame is obtained, nothing in the table has changed but the hand, which is on a frame of
the ring if there is one. The owners were asked for each of the pages in the ring, and refused
each time, but for pages that were reported accessed twice. Owners that settle report none twice,
and the owners of virtual memory do settle, as those do that follow a script. -/
theorem Reachable.acquire_intact (reachable : table.Reachable) :
    (∀ script, table.Settles OwnerScript.owners script) ∧
    (∀ tenants : Tenants arch, table.Settles Tenants.owners tenants) ∧
    ∀ {σ : Type} (owners : FrameOwners σ) (state left : σ) (request : FrameRequest)
      (owner : ProcessId) (page : PageNumber) (cause : VmError) (after : FrameTable arch),
      (table.acquire owners state request owner page).Yields (.error cause, after, left) →
      after = { table with handIndex := after.handIndex } ∧
      (∀ hand, after.hand = some hand → ∃ held, after.Queues hand held) ∧
      (after.hand = none ↔ table.queued = 0) ∧
      ∃ calls, (table.acquire owners.noting (state, []) request owner page).Yields
          (.error cause, after, left, calls) ∧
        (∀ process page contents, .evicted process page contents true ∉ calls) ∧
        ∀ frame held, table.Queues frame held →
          (.evicted held.1 held.2 (table.pool.page frame) false ∈ calls ∨
            1 < timesReported calls held) ∧
          (table.Settles owners state →
            .evicted held.1 held.2 (table.pool.page frame) false ∈ calls) := by
  obtain ⟨ring, wellFormed⟩ := reachable.wellFormed
  refine ⟨OwnerScript.owners_settle table, Tenants.owners_settle table, ?_⟩
  intro σ owners state left request owner page cause after fails
  have acquires : after.IsQueue ring :=
    ((acquire_acquires wellFormed request owner page).of_yields fails).1
  have intact := (evictWithin_intact _).of_yields (evict_of_acquire fails) rfl
  refine ⟨intact, fun hand pointed => ?_, ?_, ?_⟩
  · obtain ⟨record, found, queued⟩ := (acquires.mem_iff hand).mp (acquires.hand hand pointed)
    exact ⟨_, record, found, queued, rfl⟩
  · rw [acquires.hand_none, wellFormed.isRing.counted, List.length_eq_zero_iff]
  · rw [← acquire_noting state [], Run.yields_map] at fails
    obtain ⟨⟨_, _, _, calls⟩, yields, ⟨⟩⟩ := fails
    have searched := evict_of_acquire yields
    refine ⟨calls, yields, evict_none_granted wellFormed searched, ?_⟩
    intro frame held queues
    refine ⟨evict_asks wellFormed searched queues, fun settles => ?_⟩
    refine (evict_asks wellFormed searched queues).resolve_right (Nat.not_lt.mpr ?_)
    exact evict_reports_once wellFormed settles searched queues

/-- Two pages that are not to be moved: both were asked for, and nothing but the hand can have
moved. -/
theorem acquire_intact_two : ∃ (table after : FrameTable .scaleModel) (left : OwnerScript)
    (calls : List OwnerCall), table.Reachable ∧ table.queued = 2 ∧
      (table.acquire OwnerScript.owners unmoved {} ⟨1⟩ ⟨3⟩).Yields (.error .swapFull, after, left) ∧
      (table.acquire OwnerScript.owners.noting (unmoved, []) {} ⟨1⟩ ⟨3⟩).Yields
        (.error .swapFull, after, left, calls) ∧
      after = { table with handIndex := after.handIndex } ∧ after.hand ≠ none ∧
      ∀ frame held, table.Queues frame held →
        .evicted held.1 held.2 (table.pool.page frame) false ∈ calls := by
  obtain ⟨table, reachable, _, queued, after, left, calls, refused, _⟩ := exists_unmoved
  have fails : (table.acquire OwnerScript.owners unmoved {} ⟨1⟩ ⟨3⟩).Yields
      (.error .swapFull, after, left) := by
    rw [← acquire_noting unmoved []]
    exact Run.yields_map.mpr ⟨_, refused, rfl⟩
  obtain ⟨settles, _, fails_for⟩ := reachable.acquire_intact
  obtain ⟨intact, _, stopped, calls', refused', _, asked⟩ := fails_for _ _ _ _ _ _ _ _ fails
  cases refused.symm.trans refused'
  refine ⟨table, after, left, calls, reachable, queued, fails, refused, intact, ?_, ?_⟩
  · rw [ne_eq, stopped, queued]
    decide
  · exact fun frame held queues => (asked frame held queues).2 (settles unmoved)

end FrameTable

/-- Whether this page's owner was asked to give it up. -/
def OwnerCall.asks (owner : ProcessId × PageNumber) : OwnerCall → Bool
  | .tested .. => false
  | .evicted process page _ _ => (process, page) == owner

/-- Owners who report this page accessed at every test, and refuse to move any. -/
def FrameOwners.insistent (owner : ProcessId × PageNumber) (cause : VmError) :
    FrameOwners Unit where
  testAndClearAccessed _ process page := ((process, page) == owner, ())
  evict _ _ _ _ := return (.error cause, ())

namespace FrameTable

/-- Of two pages, the one that is reported accessed at every test is never asked for: the four
attempts go to the other one. In a ring without frames there is none for the hand to be on. -/
theorem exists_never_asked :
    (∃ (table after : FrameTable .scaleModel) (calls : List OwnerCall),
      table.Reachable ∧ table.queued = 2 ∧ table.Queues ⟨17⟩ (⟨1⟩, ⟨2⟩) ∧
      (table.acquire (FrameOwners.insistent (⟨1⟩, ⟨2⟩) .swapFull).noting ((), []) {} ⟨1⟩
        ⟨3⟩).Yields (.error .swapFull, after, (), calls) ∧
      requestsIn calls = 4 ∧ ∀ contents granted, .evicted ⟨1⟩ ⟨2⟩ contents granted ∉ calls) ∧
    ∃ (table after : FrameTable .scaleModel) (left : OwnerScript),
      table.Reachable ∧ table.queued = 0 ∧
      (table.acquire OwnerScript.owners {} {} ⟨1⟩ ⟨2⟩).Yields (.error .outOfFrames, after, left) ∧
      after.hand = none := by
  refine ⟨?_, ?_⟩
  · have passes : (filled 2).passes (fun table => table.queued == 2 &&
        (table.find? ⟨17⟩).any (fun record => !record.referenced &&
          (record.owner, record.page) == (⟨1⟩, ⟨2⟩)) &&
        (table.acquire (FrameOwners.insistent (⟨1⟩, ⟨2⟩) .swapFull).noting ((), []) {} ⟨1⟩
          ⟨3⟩).passes fun (result, _, _, calls) => result == .error .swapFull &&
            requestsIn calls == 4 && calls.all fun call => !call.asks (⟨1⟩, ⟨2⟩)) = true := by
      decide +kernel
    simp only [Run.passes_iff, Bool.and_eq_true, Prod.exists, beq_iff_eq, Option.any_eq_true,
      Bool.not_eq_true', List.all_eq_true] at passes
    obtain ⟨table, made, ⟨queued, record, found, unreferenced, owned⟩, _, after, _, calls, refused,
      ⟨rfl, requests⟩, others⟩ := passes
    refine ⟨table, after, calls, filled_reachable made, queued,
      ⟨record, found, unreferenced, owned⟩, refused, requests, fun contents granted asked => ?_⟩
    simpa [OwnerCall.asks] using others _ asked
  · have passes : (filled 0).passes (fun table => table.queued == 0 &&
        (table.acquire OwnerScript.owners {} {} ⟨1⟩ ⟨2⟩).passes
          fun ended => ended.1 == .error .outOfFrames && ended.2.1.hand == none) = true := by
      decide +kernel
    simp only [Run.passes_iff, Bool.and_eq_true, Prod.exists, beq_iff_eq] at passes
    obtain ⟨table, made, queued, _, after, left, refused, rfl, stopped⟩ := passes
    exact ⟨table, after, left, filled_reachable made, queued, refused, stopped⟩

end FrameTable
end DemandPaging
