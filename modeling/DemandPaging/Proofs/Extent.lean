import DemandPaging.Proofs.Clock

/-!
The frames that there are. Which frames the pool has, and how their contents are reached,
is settled when the pool is made; no operation on frames changes it.
-/

namespace DemandPaging

variable {arch : Architecture} {σ : Type}

namespace FramePool

variable {pool after : FramePool arch} {frame : FrameNumber} {tolerated : Violation → Prop}

def extent (pool : FramePool arch) : FrameNumber × Nat × FrameAccess :=
  (pool.base, pool.total, pool.access)

theorem contains_congr (same : after.extent = pool.extent) :
    after.contains frame = pool.contains frame := by
  simp only [extent, Prod.mk.injEq] at same
  simp only [contains, same]

theorem reach_congr (same : after.extent = pool.extent) : after.reach frame = pool.reach frame := by
  have contains : after.contains frame = pool.contains frame := contains_congr same
  simp only [extent, Prod.mk.injEq] at same
  simp only [FramePool.reach, contains, same]

theorem Addressable.congr (addressable : pool.Addressable tolerated)
    (same : after.extent = pool.extent) : after.Addressable tolerated := by
  intro frame inside
  rw [contains_congr same] at inside
  rw [reach_congr same]
  exact addressable frame inside

theorem setBytes_extent (contents : Page) :
    (pool.setBytes frame contents).Satisfies (fun _ => True) fun after =>
      after.extent = pool.extent :=
  .bind .any fun _ _ => .pure rfl

theorem deallocate_rest :
    (pool.deallocate frame).Satisfies (fun _ => True) fun after =>
      after = { pool with free := frame :: pool.free } :=
  .bind .any fun _ _ => .bind .any fun _ _ => .pure rfl

end FramePool

namespace FrameTable

variable {table : FrameTable arch} {frame : FrameNumber} {owners : FrameOwners σ} {state : σ}

def extent (table : FrameTable arch) : FrameNumber × Nat × FrameAccess :=
  table.pool.extent

theorem Relinks.extent {linked : FrameTable arch} (relinks : table.Relinks linked) :
    linked.extent = table.extent :=
  congrArg FramePool.extent relinks.pool

theorem clear_extent {index : FrameIndex} :
    (table.clear index).Satisfies (fun _ => True) fun after => after.extent = table.extent := by
  refine .mono clear_rest fun after rest => ?_
  rw [rest]
  rfl

theorem markNotReferenced_extent :
    (table.markNotReferenced frame).Satisfies (fun _ => True) fun (_, after) =>
      after.extent = table.extent := by
  unfold markNotReferenced
  split
  · exact .pure rfl
  · refine .bind .any fun entry _ => ?_
    split
    · exact .pure rfl
    · split
      · exact .bind link_relinks fun _ relinks => .pure relinks.extent
      · exact .pure rfl

theorem release_extent :
    (table.release frame).Satisfies (fun _ => True) fun after => after.extent = table.extent := by
  have unlinks : ∀ (record : FrameRecord) (index : FrameIndex),
      (if record.referenced = true then pure table else table.unlink index).Satisfies
        (fun _ => True) fun unlinked => unlinked.extent = table.extent := by
    intro record index
    split
    · exact .pure rfl
    · exact .mono unlink_relinks fun _ relinks => relinks.extent
  unfold release
  refine .bind .any fun index _ => .bind .any fun entry _ => ?_
  split
  · trivial
  · refine .bind (unlinks _ index) fun _ same => .bind clear_extent fun _ same' => ?_
    refine .bind FramePool.deallocate_rest ?_
    rintro _ rfl
    exact .pure (same'.trans same)

theorem setBytes_extent (contents : Page) :
    (table.setBytes frame contents).Satisfies (fun _ => True) fun after =>
      after.extent = table.extent :=
  .bind (FramePool.setBytes_extent contents) fun _ same => .pure same

theorem track_extent (request : FrameRequest) (owner : ProcessId) (page : PageNumber) :
    (table.track frame request owner page).Satisfies (fun _ => True) fun after =>
      after.extent = table.extent := by
  refine .mono (track_enters request owner page) ?_
  rintro _ ⟨index, _, _, rfl⟩
  split <;> rfl

theorem evictWithin_extent (attempts : Nat) :
    (table.evictWithin owners attempts state).Satisfies (fun _ => True)
      fun (_, after, _) => after.extent = table.extent := by
  induction attempts using Nat.strong_induction_on generalizing table state with
  | _ attempts ih =>
      unfold evictWithin
      split
      · exact .pure rfl
      · refine .bind .any fun (victim, _) _ => .bind .any fun record _ => .bind .any fun _ _ => ?_
        refine .bind .any fun (result, _) _ => ?_
        cases result with
        | ok _ =>
            have drops : (FrameTable.drop { table with handIndex := some victim } victim).Satisfies
                (fun _ => True) fun dropped => dropped.extent = table.extent :=
              .bind unlink_relinks fun _ relinks => .mono clear_extent fun _ same =>
                same.trans relinks.extent
            exact .bind (.lift drops) fun _ same => .bind .log fun _ _ => .pure same
        | error cause =>
            refine .bind .log fun _ _ => ?_
            obtain _ | _ | fewer := attempts
            · trivial
            · exact .pure rfl
            · exact ih (fewer + 1) (Nat.lt_succ_self _)

theorem acquire_extent (request : FrameRequest) (owner : ProcessId) (page : PageNumber) :
    (table.acquire owners state request owner page).Satisfies (fun _ => True)
      fun (_, after, _) => after.extent = table.extent := by
  unfold acquire FramePool.allocate
  cases table.pool.free with
  | cons frame free =>
      exact .bind (.lift (track_extent request owner page)) fun _ same => .pure same
  | nil =>
      refine .bind (evictWithin_extent _) fun (result, left, state) same => ?_
      cases result with
      | ok frame =>
          exact .bind (.lift (track_extent request owner page)) fun _ same' =>
            .pure (same'.trans same)
      | error cause =>
          dsimp only
          split
          · trivial
          · exact .pure same

end FrameTable
end DemandPaging
