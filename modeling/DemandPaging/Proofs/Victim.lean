import DemandPaging.Proofs.Extent
import DemandPaging.Proofs.Sweep

/-!
The clock's choice. Where owners have a set of accessed pages, out of which testing a page takes
it, and refuse to move the pages of a fixed set, the frame that is taken can be told in advance:
the first from the hand on whose page is in neither set; if there is none, the first whose page
is not refused; and if there is none of these either, the search fails.
-/

namespace DemandPaging

variable {arch : Architecture} {σ : Type} {tolerated : Violation → Prop}

/-- Owners with a set of accessed pages, out of which testing a page takes it, and with fixed
reasons for not moving certain pages. -/
structure FrameOwners.Steady (owners : FrameOwners σ) (tolerated : Violation → Prop)
    (accessed : σ → ProcessId × PageNumber → Bool)
    (refusal : σ → ProcessId × PageNumber → Option VmError) : Prop where
  tests : ∀ (state : σ) (page : ProcessId × PageNumber), (owners.testAndClearAccessed state page.1 page.2).1 = accessed state page
  clears : ∀ (state : σ) (page : ProcessId × PageNumber), accessed (owners.testAndClearAccessed state page.1 page.2).2 =
    Function.update (accessed state) page false
  fixed : ∀ (state : σ) (page : ProcessId × PageNumber), refusal (owners.testAndClearAccessed state page.1 page.2).2 = refusal state
  evicts : ∀ (state : σ) (page : ProcessId × PageNumber) (contents : Page),
    (owners.evict state page.1 page.2 contents).Satisfies tolerated fun (result, after) =>
      accessed after = accessed state ∧ refusal after = refusal state ∧
        result = match refusal state page with
          | none => .ok ()
          | some cause => .error cause

theorem FrameOwners.Steady.of_tested {owners : FrameOwners σ}
    {accessed : σ → ProcessId × PageNumber → Bool}
    {refusal : σ → ProcessId × PageNumber → Option VmError}
    (steady : owners.Steady tolerated accessed refusal) {state next : σ}
    {page : ProcessId × PageNumber} {again : Bool}
    (tested : owners.testAndClearAccessed state page.1 page.2 = (again, next)) :
    accessed state page = again ∧ accessed next = Function.update (accessed state) page false ∧
      refusal next = refusal state := by
  have answer := steady.tests state page
  have cleared := steady.clears state page
  have fixed := steady.fixed state page
  rw [tested] at answer cleared fixed
  exact ⟨answer.symm, cleared, fixed⟩

theorem FrameOwners.Steady.weaken {owners : FrameOwners σ} {also : Violation → Prop}
    {accessed : σ → ProcessId × PageNumber → Bool}
    {refusal : σ → ProcessId × PageNumber → Option VmError}
    (steady : owners.Steady tolerated accessed refusal)
    (weaker : ∀ violation, tolerated violation → also violation) :
    owners.Steady also accessed refusal :=
  ⟨steady.tests, steady.clears, steady.fixed, fun state page contents =>
    (steady.evicts state page contents).weaken weaker⟩

theorem OwnerScript.owners_steady : owners.Steady (fun _ => False)
    (fun script page => script.accessed.contains page)
    (fun script page => script.refusals.lookup page) := by
  refine ⟨fun script page => rfl, fun script page => funext fun other => ?_,
    fun script page => rfl, fun script page contents => ?_⟩
  · rw [Function.update_apply, Bool.eq_iff_iff]
    change (script.accessed.filter (· != page)).contains other = true ↔ _
    by_cases same : other = page
    · simp [same]
    · simp [same]
  · change Checked.Satisfies _ _ (.ok (script.evict page.1 page.2 contents))
    unfold OwnerScript.evict
    cases script.refusals.lookup (page.1, page.2) with
    | none => exact ⟨rfl, rfl, rfl⟩
    | some cause => exact ⟨rfl, rfl, rfl⟩

section Frames

variable (ownerOf : FrameNumber → Option (ProcessId × PageNumber))
  (accessed : ProcessId × PageNumber → Bool)

/-- Whether the page in a frame is one of these. -/
def pageIn (frame : FrameNumber) : Bool :=
  (ownerOf frame).any accessed

/-- Why the page in a frame is not to be moved, if it is not. -/
def refusalOf (refusal : ProcessId × PageNumber → Option VmError) (frame : FrameNumber) :
    Option VmError :=
  (ownerOf frame).bind refusal

/-- The pages without those in these frames. -/
def withoutPages (frames : List FrameNumber) (page : ProcessId × PageNumber) : Bool :=
  accessed page && !(frames.map ownerOf).contains (some page)

/-- How many of these frames have pages that are not among those accessed. The owners are asked
to move these when the hand comes by. -/
def askedAmong (frames : List FrameNumber) : Nat :=
  frames.countP fun frame => !pageIn ownerOf accessed frame

theorem askedAmong_le_length (frames : List FrameNumber) :
    askedAmong ownerOf accessed frames ≤ frames.length :=
  List.countP_le_length

variable {ownerOf accessed} {frame other : FrameNumber} {owner : ProcessId × PageNumber}
  {frames : List FrameNumber}

@[simp] theorem withoutPages_nil : withoutPages ownerOf accessed [] = accessed := by
  funext page
  simp [withoutPages]

theorem withoutPages_cons (owned : ownerOf frame = some owner) :
    withoutPages ownerOf accessed (frame :: frames) =
      withoutPages ownerOf (Function.update accessed owner false) frames := by
  funext page
  by_cases same : page = owner
  · simp [withoutPages, owned, same]
  · simp [withoutPages, owned, same]

theorem withoutPages_idem {fewer : List FrameNumber} (inside : ∀ frame ∈ fewer, frame ∈ frames) :
    withoutPages ownerOf (withoutPages ownerOf accessed frames) fewer =
      withoutPages ownerOf accessed frames := by
  funext page
  unfold withoutPages
  by_cases member : (frames.map ownerOf).contains (some page) = true
  · simp only [member, Bool.not_true, Bool.and_false, Bool.false_and]
  · have absent : (fewer.map ownerOf).contains (some page) = false := by
      rw [List.contains_iff_mem] at member
      rw [Bool.eq_false_iff, ne_eq, List.contains_iff_mem]
      exact fun kept => member (List.map_subset ownerOf inside kept)
    rw [absent, Bool.not_false, Bool.and_true]

theorem pageIn_withoutPages (member : frame ∈ frames) :
    pageIn ownerOf (withoutPages ownerOf accessed frames) frame = false := by
  unfold pageIn
  cases owned : ownerOf frame with
  | none => rfl
  | some owner =>
      have inside : (frames.map ownerOf).contains (some owner) = true :=
        List.contains_iff_mem.mpr (owned ▸ List.mem_map_of_mem member)
      rw [Option.any_some, withoutPages, inside, Bool.not_true, Bool.and_false]

theorem pageIn_withoutPages_of_not (untouched : pageIn ownerOf accessed frame = false) :
    pageIn ownerOf (withoutPages ownerOf accessed frames) frame = false := by
  unfold pageIn at *
  cases owned : ownerOf frame with
  | none => rfl
  | some owner =>
      rw [owned, Option.any_some] at untouched
      rw [Option.any_some, withoutPages, untouched, Bool.false_and]

theorem pageIn_update (apart : ownerOf other ≠ some owner) :
    pageIn ownerOf (Function.update accessed owner false) other =
      pageIn ownerOf accessed other := by
  unfold pageIn
  cases owned : ownerOf other with
  | none => rfl
  | some page =>
      have differs : page ≠ owner := fun same => apart (same ▸ owned)
      rw [Option.any_some, Option.any_some, Function.update_of_ne differs]

theorem askedAmong_cons (owned : ownerOf frame = some owner) :
    askedAmong ownerOf accessed (frame :: frames) =
      askedAmong ownerOf accessed frames + if accessed owner = true then 0 else 1 := by
  unfold askedAmong pageIn
  rw [List.countP_cons, owned, Option.any_some]
  cases accessed owner <;> rfl

theorem askedAmong_congr {again : ProcessId × PageNumber → Bool}
    (kept : ∀ frame ∈ frames, pageIn ownerOf again frame = pageIn ownerOf accessed frame) :
    askedAmong ownerOf again frames = askedAmong ownerOf accessed frames :=
  List.countP_congr fun frame member => by rw [kept frame member]


end Frames

namespace Sweep

variable {owners : FrameOwners σ} {ownerOf : FrameNumber → Option (ProcessId × PageNumber)}
  {contents : FrameNumber → Page} {accessed : σ → ProcessId × PageNumber → Bool}
  {refusal : σ → ProcessId × PageNumber → Option VmError} {state left : σ}
  {order before after rest final : List FrameNumber} {victim frame : FrameNumber} {attempts : Nat}
  {turns : List Turn} {result : Except VmError FrameNumber}

/-- The pages at the hand are passed if each is accessed or refused and there are attempts enough
for those that are not accessed. -/
theorem passes (steady : owners.Steady tolerated accessed refusal)
    (distinct : (before.map ownerOf).Nodup)
    (passing : ∀ frame ∈ before, pageIn ownerOf (accessed state) frame = true ∨
      refusalOf ownerOf (refusal state) frame ≠ none)
    (enough : askedAmong ownerOf (accessed state) before < attempts)
    (sweep : Sweep owners ownerOf contents (before ++ after) attempts state turns result final
      left) :
    ∃ passed later reached, turns = passed ++ later ∧
      Sweep owners ownerOf contents (after ++ before)
        (attempts - askedAmong ownerOf (accessed state) before) reached later
        result final left ∧
      accessed reached = withoutPages ownerOf (accessed state) before ∧
      refusal reached = refusal state := by
  induction before generalizing after attempts state turns with
  | nil => exact ⟨[], turns, state, rfl, by simpa [askedAmong] using sweep, by simp, rfl⟩
  | cons frame before ih =>
      obtain ⟨fresh, distinct⟩ := List.nodup_cons.mp distinct
      obtain ⟨here, passing⟩ := List.forall_mem_cons.mp passing
      -- the pages behind the first one are what they were, so they are passed in the same way
      have onward {owner : ProcessId × PageNumber} {next : σ} {fewer : Nat} {more : List Turn}
          (owned : ownerOf frame = some owner)
          (cleared : accessed next = Function.update (accessed state) owner false)
          (fixed : refusal next = refusal state)
          (enough : askedAmong ownerOf (accessed state) before < fewer)
          (sweep : Sweep owners ownerOf contents (before ++ after ++ [frame]) fewer next more result
            final left) :
          ∃ passed later reached, more = passed ++ later ∧
            Sweep owners ownerOf contents (after ++ frame :: before)
              (fewer - askedAmong ownerOf (accessed state) before) reached
              later result final left ∧
            accessed reached = withoutPages ownerOf (accessed state) (frame :: before) ∧
            refusal reached = refusal state := by
        have kept : ∀ other ∈ before, pageIn ownerOf (accessed next) other =
            pageIn ownerOf (accessed state) other := by
          intro other member
          rw [cleared]
          exact pageIn_update fun same => fresh (owned ▸ same ▸ List.mem_map_of_mem member)
        have counted := askedAmong_congr kept
        rw [List.append_assoc] at sweep
        obtain ⟨passed, later, reached, rfl, sweep, accessed', refusal'⟩ :=
          ih distinct (fun other member => by rw [kept other member, fixed]; exact passing other member)
            (counted ▸ enough) sweep
        refine ⟨passed, later, reached, rfl, ?_, ?_, refusal'.trans fixed⟩
        · rwa [counted, List.append_assoc] at sweep
        · rw [accessed', cleared, withoutPages_cons owned]
      cases sweep with
      | spare owned tested sweep =>
          obtain ⟨set, cleared, fixed⟩ := steady.of_tested tested
          rw [askedAmong_cons owned, if_pos set] at enough ⊢
          obtain ⟨passed, later, reached, rfl, rest⟩ := onward owned cleared fixed enough sweep
          exact ⟨_ :: passed, later, reached, rfl, rest⟩
      | refuse owned tested refuses sweep =>
          obtain ⟨clear, cleared, fixed⟩ := steady.of_tested tested
          obtain ⟨cleared', fixed', _⟩ := (steady.evicts _ _ _).of_yields refuses
          rw [askedAmong_cons owned, if_neg (by simp [clear])] at enough ⊢
          obtain ⟨passed, later, reached, rfl, sweep, rest⟩ := onward owned
            (cleared'.trans cleared) (fixed'.trans fixed) (by omega) sweep
          refine ⟨_ :: passed, later, reached, rfl, ?_, rest⟩
          convert sweep using 1
          omega
      | giveUp owned tested refuses =>
          obtain ⟨clear, _⟩ := steady.of_tested tested
          rw [askedAmong_cons owned, if_neg (by simp [clear])] at enough
          omega
      | take owned tested moves =>
          obtain ⟨clear, _, fixed⟩ := steady.of_tested tested
          obtain ⟨_, _, answer⟩ := (steady.evicts _ _ _).of_yields moves
          exfalso
          rw [pageIn, owned, Option.any_some, clear, refusalOf, owned, Option.bind_some] at here
          obtain ⟨cause, reason⟩ := Option.ne_none_iff_exists'.mp (here.resolve_left (by simp))
          rw [fixed, reason] at answer
          cases answer

theorem takes (steady : owners.Steady tolerated accessed refusal)
    (untouched : pageIn ownerOf (accessed state) frame = false)
    (willing : refusalOf ownerOf (refusal state) frame = none)
    (sweep : Sweep owners ownerOf contents (frame :: rest) attempts state turns result final left) :
    result = .ok frame ∧ final = rest ∧ turns = [⟨frame, some (.ok ())⟩] ∧
      accessed left = accessed state := by
  have refuted {owner : ProcessId × PageNumber} {searched refused : σ} {cause : VmError}
      (owned : ownerOf frame = some owner)
      (tested : owners.testAndClearAccessed state owner.1 owner.2 = (false, searched))
      (refuses : (owners.evict searched owner.1 owner.2 (contents frame)).Yields
        (.error cause, refused)) : False := by
    obtain ⟨_, _, fixed⟩ := steady.of_tested tested
    obtain ⟨_, _, answer⟩ := (steady.evicts _ _ _).of_yields refuses
    rw [refusalOf, owned, Option.bind_some] at willing
    rw [fixed, willing] at answer
    cases answer
  cases sweep with
  | spare owned tested sweep =>
      obtain ⟨set, _⟩ := steady.of_tested tested
      rw [pageIn, owned, Option.any_some, set] at untouched
      cases untouched
  | refuse owned tested refuses sweep => exact (refuted owned tested refuses).elim
  | giveUp owned tested refuses => exact (refuted owned tested refuses).elim
  | take owned tested moves =>
      obtain ⟨clear, cleared, _⟩ := steady.of_tested tested
      obtain ⟨kept, _⟩ := (steady.evicts _ _ _).of_yields moves
      refine ⟨rfl, rfl, rfl, ?_⟩
      rw [kept, cleared, ← clear, Function.update_eq_self]

/-- The first page that is neither accessed nor refused is the one to go. -/
theorem takes_first (steady : owners.Steady tolerated accessed refusal)
    (distinct : (before.map ownerOf).Nodup)
    (passing : ∀ frame ∈ before, pageIn ownerOf (accessed state) frame = true ∨
      refusalOf ownerOf (refusal state) frame ≠ none)
    (enough : askedAmong ownerOf (accessed state) before < attempts)
    (untouched : pageIn ownerOf (accessed state) victim = false)
    (willing : refusalOf ownerOf (refusal state) victim = none)
    (sweep : Sweep owners ownerOf contents (before ++ victim :: after) attempts state turns result
      final left) :
    result = .ok victim ∧ final = after ++ before ∧
      turns.getLast? = some ⟨victim, some (.ok ())⟩ ∧
      accessed left = withoutPages ownerOf (accessed state) before := by
  obtain ⟨passed, later, reached, rfl, sweep, accessed', refusal'⟩ :=
    sweep.passes steady distinct passing enough
  have untouched' : pageIn ownerOf (accessed reached) victim = false :=
    accessed' ▸ pageIn_withoutPages_of_not untouched
  obtain ⟨rfl, rfl, rfl, kept⟩ := sweep.takes steady untouched' (refusal'.symm ▸ willing)
  exact ⟨rfl, rfl, List.getLast?_concat .., kept.trans accessed'⟩

/-- If every page is accessed or refused, none is accessed after a round, and fewer than half of
the attempts are used up. -/
theorem passes_round (steady : owners.Steady tolerated accessed refusal)
    (distinct : (order.map ownerOf).Nodup) (nonempty : order ≠ [])
    (passing : ∀ frame ∈ order, pageIn ownerOf (accessed state) frame = true ∨
      refusalOf ownerOf (refusal state) frame ≠ none)
    (sweep : Sweep owners ownerOf contents order (2 * order.length) state turns result final
      left) :
    ∃ passed later reached, turns = passed ++ later ∧
      Sweep owners ownerOf contents order
        (2 * order.length - askedAmong ownerOf (accessed state) order) reached later result final
        left ∧
      accessed reached = withoutPages ownerOf (accessed state) order ∧
      refusal reached = refusal state := by
  have positive := List.length_pos_iff.mpr nonempty
  have fewer := askedAmong_le_length ownerOf (accessed state) order
  have round : Sweep owners ownerOf contents (order ++ []) (2 * order.length) state turns result
      final left := by
    rwa [List.append_nil]
  exact round.passes steady distinct passing (by omega)

/-- If every page is accessed or refused, then the first page that is not refused is the one to
go, and by then no page is accessed any more. -/
theorem takes_second (steady : owners.Steady tolerated accessed refusal)
    (whole : order = before ++ victim :: after) (distinct : (order.map ownerOf).Nodup)
    (passing : ∀ frame ∈ order, pageIn ownerOf (accessed state) frame = true ∨
      refusalOf ownerOf (refusal state) frame ≠ none)
    (refused : ∀ frame ∈ before, refusalOf ownerOf (refusal state) frame ≠ none)
    (willing : refusalOf ownerOf (refusal state) victim = none)
    (sweep : Sweep owners ownerOf contents order (2 * order.length) state turns result final
      left) :
    result = .ok victim ∧ final = after ++ before ∧
      turns.getLast? = some ⟨victim, some (.ok ())⟩ ∧
      accessed left = withoutPages ownerOf (accessed state) order := by
  obtain ⟨passed, later, reached, rfl, sweep, accessed', refusal'⟩ :=
    sweep.passes_round steady distinct (by simp [whole]) passing
  rw [whole] at sweep
  have inside : ∀ frame ∈ before, frame ∈ order := fun frame member =>
    whole ▸ List.mem_append_left _ member
  have member : victim ∈ order := by simp [whole]
  have shorter : before.length < order.length := by simp [whole]
  have first := askedAmong_le_length ownerOf (accessed state) order
  have second := askedAmong_le_length ownerOf (accessed reached) before
  have distinct' : (before.map ownerOf).Nodup := by
    rw [whole, List.map_append] at distinct
    exact (List.nodup_append.mp distinct).1
  rw [← refusal'] at refused willing
  have untouched : pageIn ownerOf (accessed reached) victim = false :=
    accessed' ▸ pageIn_withoutPages member
  obtain ⟨rfl, rfl, last, kept⟩ := sweep.takes_first steady distinct'
    (fun frame member => .inr (refused frame member)) (by rw [← whole]; omega) untouched willing
  refine ⟨rfl, rfl, ?_, ?_⟩
  · rw [List.getLast?_append, last]
    rfl
  · rw [kept, accessed', withoutPages_idem inside]

/-- Where no page is accessed and every page is refused, the attempts are used up going round, and
the last one decides. -/
theorem refusals (steady : owners.Steady tolerated accessed refusal)
    (untouched : ∀ frame ∈ order, pageIn ownerOf (accessed state) frame = false)
    (refused : ∀ frame ∈ order, refusalOf ownerOf (refusal state) frame ≠ none)
    (sweep : Sweep owners ownerOf contents order attempts state turns result final left) :
    ∃ last cause, order[(attempts - 1) % order.length]? = some last ∧
      refusalOf ownerOf (refusal state) last = some cause ∧ result = .error cause ∧
      turns.getLast? = some ⟨last, some (.error cause)⟩ ∧ accessed left = accessed state := by
  induction sweep with
  | @spare frame rest final attempts owner state cleared left turns result owned tested _ _ =>
      obtain ⟨set, _⟩ := steady.of_tested tested
      have untouched := untouched frame List.mem_cons_self
      rw [pageIn, owned, Option.any_some, set] at untouched
      cases untouched
  | @refuse frame rest final attempts owner state searched asked left turns cause result owned
      tested refuses _ ih =>
      obtain ⟨clear, cleared, fixed⟩ := steady.of_tested tested
      obtain ⟨cleared', fixed', _⟩ := (steady.evicts _ _ _).of_yields refuses
      rw [← clear, Function.update_eq_self] at cleared
      have same := cleared'.trans cleared
      have passed : ∀ other ∈ rest ++ [frame], other ∈ frame :: rest := by
        intro other member
        rwa [List.mem_append, or_comm, ← List.mem_append, List.singleton_append] at member
      obtain ⟨last, reason, here, because, rfl, told, kept⟩ := ih
        (fun other member => by rw [same]; exact untouched other (passed other member))
        (fun other member => by rw [fixed', fixed]; exact refused other (passed other member))
      refine ⟨last, reason, ?_, ?_, rfl, ?_, kept.trans same⟩
      · have rotated : rest ++ [frame] = (frame :: rest).rotate 1 := by simp
        rw [rotated, List.length_rotate, List.getElem?_rotate (Nat.mod_lt _ (by simp)),
          Nat.mod_add_mod] at here
        exact here
      · rw [← because, fixed', fixed]
      · rw [List.getLast?_cons, told]
        rfl
  | @giveUp frame rest owner state searched left cause owned tested refuses =>
      obtain ⟨clear, cleared, fixed⟩ := steady.of_tested tested
      obtain ⟨cleared', fixed', answer⟩ := (steady.evicts _ _ _).of_yields refuses
      obtain ⟨reason, because⟩ := Option.ne_none_iff_exists'.mp (refused frame List.mem_cons_self)
      have named : refusal state owner = some reason := by
        rwa [refusalOf, owned, Option.bind_some] at because
      rw [fixed, named] at answer
      cases answer
      rw [← clear, Function.update_eq_self] at cleared
      exact ⟨frame, cause, by simp, because, rfl, rfl, cleared'.trans cleared⟩
  | @take frame rest attempts owner state searched left owned tested moves =>
      obtain ⟨_, _, fixed⟩ := steady.of_tested tested
      obtain ⟨_, _, answer⟩ := (steady.evicts _ _ _).of_yields moves
      obtain ⟨cause, reason⟩ := Option.ne_none_iff_exists'.mp (refused frame List.mem_cons_self)
      rw [refusalOf, owned, Option.bind_some] at reason
      rw [fixed, reason] at answer
      cases answer

end Sweep

theorem isRotated_cons_append {α : Type} (before after : List α) (a : α) :
    (a :: (after ++ before)).IsRotated (before ++ a :: after) := by
  rw [← List.cons_append]
  exact List.isRotated_append

theorem isRotated_erase {α : Type} [DecidableEq α] {circle other : List α} (nodup : circle.Nodup)
    (rotated : other.IsRotated circle) (a : α) : (other.erase a).IsRotated (circle.erase a) := by
  rw [nodup.erase_eq_filter, (rotated.nodup_iff.mpr nodup).erase_eq_filter]
  obtain ⟨n, small, rfl⟩ := List.isRotated_iff_mod.mp rotated
  rw [List.rotate_eq_drop_append_take small, List.filter_append]
  conv_lhs => rw [← List.take_append_drop n other, List.filter_append]
  exact List.isRotated_append

namespace FrameTable

variable {table : FrameTable arch} {ring order onward : List FrameNumber} {victim : FrameNumber}
  {owners : FrameOwners σ} {accessed : σ → ProcessId × PageNumber → Bool}
  {refusal : σ → ProcessId × PageNumber → Option VmError} {state : σ} {request : FrameRequest}
  {owner : ProcessId} {page : PageNumber}

theorem WellFormed.reach {unreached : Violation → Prop}
    (wellFormed : table.WellFormed unreached ring)
    (addressable : table.pool.Addressable tolerated) : table.WellFormed tolerated ring :=
  { wellFormed with addressable }

/-- A search among the frames of a ring relies on no more than that testing a page clears it. -/
theorem answers_of_steady (steady : owners.Steady tolerated accessed refusal) :
    owners.Answers tolerated table.ownerOf table.pool.page ring (fun _ => True) (fun _ _ => True)
      fun state => ring.countP (pageIn table.ownerOf (accessed state)) := by
  refine ⟨fun state _ => List.countP_le_length, fun _ _ _ _ _ _ => trivial, ?_, ?_,
    fun _ _ _ _ => trivial⟩
  · intro frame owner state member owned _ again
    rw [steady.tests] at again
    rw [steady.clears]
    have fewer (frames : List FrameNumber) :
        frames.countP (pageIn table.ownerOf (Function.update (accessed state) owner false)) ≤
          frames.countP (pageIn table.ownerOf (accessed state)) := by
      refine List.countP_mono_left fun other _ held => ?_
      by_cases same : table.ownerOf other = some owner
      · simp [pageIn, same] at held
      · rwa [pageIn_update same] at held
    obtain ⟨before, after, rfl⟩ := List.append_of_mem member
    rw [List.countP_append, List.countP_append, List.countP_cons_of_neg (by simp [pageIn, owned]),
      List.countP_cons_of_pos (by simpa [pageIn, owned] using again)]
    have := fewer before
    have := fewer after
    omega
  · intro frame owner state member owned _
    refine .mono (steady.evicts state owner _) ?_
    rintro ⟨result, after⟩ _
    cases result <;> trivial

theorem evict_sweeps (wellFormed : table.WellFormed tolerated ring) (fromHand : table.FromHand order)
    (nonempty : order ≠ []) (steady : owners.Steady tolerated accessed refusal) :
    (table.evict owners state).Tells tolerated fun events (result, left, after) =>
      (match result with
        | .ok frame => (left.offer frame).WellFormed tolerated (ring.erase frame) ∧
            left.ownerOf = Function.update table.ownerOf frame none
        | .error _ => True) ∧
      ∃ turns final turn owner,
        Sweep owners table.ownerOf table.pool.page order (2 * order.length) state turns result final
          after ∧
        left.hand = final.head? ∧ turns.getLast? = some turn ∧
        table.ownerOf turn.frame = some owner ∧ events.getLast? = some (turn.event owner) := by
  have rotated := fromHand.isRotated wellFormed.isRing
  have positive := List.length_pos_iff.mpr nonempty
  have queued : table.queued = order.length := by
    rw [wellFormed.isRing.counted, rotated.perm.length_eq]
  obtain ⟨frame, rest, rfl⟩ := List.exists_cons_of_ne_nil nonempty
  have unreached : table.WellFormed (fun _ => True) ring :=
    wellFormed.reach fun _ _ => ⟨fun _ _ => trivial, fun _ _ => trivial⟩
  unfold evict
  refine .mono (.and (evictWithin_satisfies wellFormed (answers_of_steady steady) _ trivial ?_)
    (evictWithin_sweeps unreached rotated fromHand.hand _)) ?_
  · exact fun _ => by omega
  rintro events ⟨result, left, after⟩ ⟨outcome, sweep⟩
  refine ⟨?_, queued ▸ sweep⟩
  cases result with
  | ok frame => exact ⟨outcome.1, outcome.2.2.1⟩
  | error cause => trivial

/-- A frame serves this page now. The hand comes to the queued frames in this order, and the frame
is not one of them. -/
structure Reassigns (table : FrameTable arch) (victim : FrameNumber) (onward : List FrameNumber)
    (owned : ProcessId × PageNumber) (after : FrameTable arch) : Prop where
  fromHand : after.FromHand onward
  owners : after.ownerOf = Function.update table.ownerOf victim (some owned)
  held : after.field? FrameRecord.referenced victim = some true

theorem track_reassigns {left : FrameTable arch}
    (offered : (left.offer victim).WellFormed tolerated ring)
    (unowned : left.ownerOf = Function.update table.ownerOf victim none)
    (rotated : onward.IsRotated ring) (hand : left.hand = onward.head?) :
    (left.track victim request owner page).Satisfies tolerated
      (table.Reassigns victim onward (owner, page)) := by
  refine .mono (.and (track_satisfies offered request owner page)
    (track_hand request owner page)) ?_
  rintro after ⟨⟨wellFormed, outside, _, owners⟩, pointed⟩
  have owned : after.ownerOf victim = some (owner, page) := by rw [owners, Function.update_self]
  obtain ⟨record, found⟩ := mem_iff.mp (mem_of_ownerOf owned)
  refine ⟨.of_isRing wellFormed.isRing rotated (pointed.trans hand), ?_, ?_⟩
  · rw [owners, unowned, Function.update_idem]
  · rw [wellFormed.isRing.mem_iff found, Bool.not_eq_false] at outside
    rw [field?_of_find? found, outside]

theorem acquire_reassigns (info : List Event → σ → Prop) (full : table.pool.free = [])
    (rotated : onward.IsRotated ring)
    (search : (table.evict owners state).Tells tolerated fun events (result, left, after) =>
      result = .ok victim ∧ (left.offer victim).WellFormed tolerated ring ∧
        left.ownerOf = Function.update table.ownerOf victim none ∧ left.hand = onward.head? ∧
        info events after) :
    (table.acquire owners state request owner page).Tells tolerated
      fun events (result, after, left) => result = .ok victim ∧
        table.Reassigns victim onward (owner, page) after ∧ info events left := by
  unfold acquire FramePool.allocate
  rw [full]
  refine .bind search ?_
  rintro events ⟨_, left, after⟩ ⟨rfl, offered, unowned, hand, told⟩
  refine .bind (.lift (track_reassigns offered unowned rotated hand)) ?_
  rintro _ tracking ⟨rfl, reassigns⟩
  exact .pure ⟨rfl, reassigns, by simpa using told⟩

theorem acquire_fails_for (info : List Event → Prop) {cause : VmError}
    (full : table.pool.free = [])
    (search : (table.evict owners state).Tells tolerated fun events (result, _) =>
      result = .error cause ∧ info events) :
    (table.acquire owners state request owner page).Tells
      (fun violation => tolerated violation ∨
        request.required = true ∧ violation = .noFrameAvailable page owner cause)
      fun events (result, _) => request.required = false ∧ result = .error cause ∧
        info events := by
  unfold acquire FramePool.allocate
  rw [full]
  refine .bind (search.weaken fun _ => .inl) ?_
  rintro events ⟨_, left, after⟩ ⟨rfl, told⟩
  cases required : request.required with
  | true => exact .inr ⟨rfl, rfl⟩
  | false => exact .pure ⟨rfl, rfl, by simpa using told⟩

section Choice

variable (tolerated) (table) (owners) (state) (request) (owner) (page)

/-- An acquisition takes this frame: what it logs last is that the frame's page was evicted, the
hand is on the first of the frames in `onward`, and these pages are still accessed. -/
def Takes (accessed : σ → ProcessId × PageNumber → Bool) (victim : FrameNumber)
    (onward : List FrameNumber) (still : ProcessId × PageNumber → Bool) : Prop :=
  (table.acquire owners state request owner page).Tells tolerated fun events (result, after, left) =>
    result = .ok victim ∧ table.Reassigns victim onward (owner, page) after ∧
      accessed left = still ∧ ∃ held, table.ownerOf victim = some held ∧
        events.getLast? = some (.evicted victim held.2 held.1)

/-- An acquisition fails for this cause, which breaks a rule if success was required; this holds
of what it logs. -/
def Fails (cause : VmError) (info : List Event → Prop) : Prop :=
  (table.acquire owners state request owner page).Tells
    (fun violation => tolerated violation ∨
      request.required = true ∧ violation = .noFrameAvailable page owner cause)
    fun events (result, _) => request.required = false ∧ result = .error cause ∧ info events

variable {tolerated table owners state request owner page}

theorem takes_of_sweep {still : ProcessId × PageNumber → Bool}
    (wellFormed : table.WellFormed tolerated ring) (full : table.pool.free = [])
    (fromHand : table.FromHand order) (nonempty : order ≠ [])
    (steady : owners.Steady tolerated accessed refusal)
    (rotated : (victim :: onward).IsRotated order)
    (chosen : ∀ turns result final left, Sweep owners table.ownerOf table.pool.page order
        (2 * order.length) state turns result final left →
      result = .ok victim ∧ final = onward ∧ turns.getLast? = some ⟨victim, some (.ok ())⟩ ∧
        accessed left = still) :
    table.Takes tolerated owners state request owner page accessed victim onward still := by
  have rotated' := isRotated_erase wellFormed.isRing.nodup
    (rotated.trans (fromHand.isRotated wellFormed.isRing)) victim
  rw [List.erase_cons_head] at rotated'
  refine acquire_reassigns (fun events after => accessed after = still ∧ ∃ held,
    table.ownerOf victim = some held ∧ events.getLast? = some (.evicted victim held.2 held.1)) full
    rotated' ?_
  refine .mono (evict_sweeps wellFormed fromHand nonempty steady) ?_
  rintro events ⟨result, left, after⟩ ⟨outcome, turns, final, turn, held, sweep, hand, last, owned,
    told⟩
  obtain ⟨rfl, rfl, last', kept⟩ := chosen _ _ _ _ sweep
  cases last.symm.trans last'
  exact ⟨rfl, outcome.1, outcome.2, hand, kept, held, owned, told⟩

theorem acquire_takes_first {before after : List FrameNumber}
    (wellFormed : table.WellFormed tolerated ring) (full : table.pool.free = [])
    (fromHand : table.FromHand (before ++ victim :: after))
    (distinct : ((before ++ victim :: after).map table.ownerOf).Nodup)
    (steady : owners.Steady tolerated accessed refusal)
    (passing : ∀ frame ∈ before, pageIn table.ownerOf (accessed state) frame = true ∨
      refusalOf table.ownerOf (refusal state) frame ≠ none)
    (untouched : pageIn table.ownerOf (accessed state) victim = false)
    (willing : refusalOf table.ownerOf (refusal state) victim = none) :
    table.Takes tolerated owners state request owner page accessed victim (after ++ before)
      (withoutPages table.ownerOf (accessed state) before) := by
  refine takes_of_sweep wellFormed full fromHand (by simp) steady
    (isRotated_cons_append before after victim) ?_
  intro turns result final left sweep
  have counted := askedAmong_le_length table.ownerOf (accessed state) before
  have distinct' : (before.map table.ownerOf).Nodup := by
    rw [List.map_append] at distinct
    exact (List.nodup_append.mp distinct).1
  exact sweep.takes_first steady distinct' passing (by simp; omega) untouched willing

/-- With no frame free, an acquisition takes the first frame from the hand on whose page is neither
accessed nor refused, after clearing the pages before it; if there is none, it takes the first
whose page is not refused, after clearing all pages; if there is none of these either, it fails
for the reason of the last page that was tried. That is where the attempts left over from the
first round, in which every page not accessed is tried once, come to an end. -/
theorem Reachable.acquire_victim (reachable : table.Reachable)
    (addressable : table.pool.Addressable tolerated) (full : table.pool.free = [])
    (fromHand : table.FromHand order) (distinct : (order.map table.ownerOf).Nodup)
    (steady : owners.Steady tolerated accessed refusal) (state : σ) (request : FrameRequest)
    (owner : ProcessId) (page : PageNumber) :
    (∀ before victim after, order = before ++ victim :: after →
      (∀ frame ∈ before, pageIn table.ownerOf (accessed state) frame = true ∨
        refusalOf table.ownerOf (refusal state) frame ≠ none) →
      pageIn table.ownerOf (accessed state) victim = false →
      refusalOf table.ownerOf (refusal state) victim = none →
        table.Takes tolerated owners state request owner page accessed victim (after ++ before)
          (withoutPages table.ownerOf (accessed state) before)) ∧
    ((∀ frame ∈ order, pageIn table.ownerOf (accessed state) frame = true ∨
        refusalOf table.ownerOf (refusal state) frame ≠ none) →
      ∀ before victim after, order = before ++ victim :: after →
      (∀ frame ∈ before, refusalOf table.ownerOf (refusal state) frame ≠ none) →
      refusalOf table.ownerOf (refusal state) victim = none →
        table.Takes tolerated owners state request owner page accessed victim (after ++ before)
          (withoutPages table.ownerOf (accessed state) order)) ∧
    ((∀ frame ∈ order, refusalOf table.ownerOf (refusal state) frame ≠ none) →
      (order = [] →
        table.Fails tolerated owners state request owner page .outOfFrames fun _ => True) ∧
      (order ≠ [] → ∃ last held cause,
        order[(2 * order.length - askedAmong table.ownerOf (accessed state) order - 1) %
          order.length]? = some last ∧
        table.ownerOf last = some held ∧ refusal state held = some cause ∧
        table.Fails tolerated owners state request owner page cause fun events =>
          events.getLast? = some (.evictionRefused held.2 held.1 cause))) := by
  obtain ⟨ring, unreached⟩ := reachable.wellFormed
  have wellFormed := unreached.reach addressable
  refine ⟨?_, ?_, fun refused => ⟨?_, ?_⟩⟩
  · rintro before victim after rfl passing untouched willing
    exact acquire_takes_first wellFormed full fromHand distinct steady passing untouched willing
  · rintro passing before victim after whole refused willing
    have rotated := whole ▸ isRotated_cons_append before after victim
    refine takes_of_sweep wellFormed full fromHand (by simp [whole]) steady rotated ?_
    intro turns result final left sweep
    exact sweep.takes_second steady whole distinct passing refused willing
  · rintro rfl
    refine acquire_fails_for _ full ?_
    unfold evict
    rw [evictWithin_of_hand_none fromHand.hand]
    exact .pure ⟨rfl, trivial⟩
  · intro nonempty
    have bound : (2 * order.length - askedAmong table.ownerOf (accessed state) order - 1) %
        order.length < order.length := Nat.mod_lt _ (List.length_pos_iff.mpr nonempty)
    have inside := List.getElem_mem bound
    obtain ⟨cause, because⟩ := Option.ne_none_iff_exists'.mp (refused _ inside)
    obtain ⟨held, owned, named⟩ := Option.bind_eq_some_iff.mp because
    refine ⟨_, held, cause, List.getElem?_eq_getElem bound, owned, named, ?_⟩
    refine acquire_fails_for _ full (.mono (evict_sweeps wellFormed fromHand nonempty steady) ?_)
    rintro events ⟨result, left, after⟩ ⟨_, turns, final, turn, owner, sweep, _, last, owned', told⟩
    obtain ⟨passed, later, reached, rfl, sweep, accessed', refusal'⟩ :=
      sweep.passes_round steady distinct nonempty fun frame member => .inr (refused frame member)
    obtain ⟨frame, reason, here, because', rfl, last', _⟩ := sweep.refusals steady
      (fun frame member => accessed' ▸ pageIn_withoutPages member)
      (fun frame member => refusal'.symm ▸ refused frame member)
    rw [List.getElem?_eq_getElem bound] at here
    cases here
    rw [refusal', because] at because'
    cases because'
    rw [List.getLast?_append, last'] at last
    cases last
    cases owned.symm.trans owned'
    exact ⟨rfl, told⟩

/-- Of three frames the first one's page is refused and the second one's accessed, so the third
one is taken. -/
theorem acquire_victim_third : ∃ table : FrameTable .scaleModel, table.Reachable ∧
    table.FromHand [⟨16⟩, ⟨17⟩, ⟨18⟩] ∧
    table.Takes (fun _ => False) OwnerScript.owners
      { accessed := [(⟨1⟩, ⟨2⟩)], refusals := [((⟨1⟩, ⟨1⟩), .swapFull)] } {} ⟨1⟩ ⟨4⟩
      (fun script page => script.accessed.contains page) ⟨18⟩ [⟨16⟩, ⟨17⟩] fun _ => false := by
  have passes : (filled 3).passes (fun table => table.inOrder == [⟨16⟩, ⟨17⟩, ⟨18⟩] &&
      table.pool.free == [] &&
      table.pool.frames.all (fun frame =>
        (table.pool.reach frame).isOk && (frame.frameStart .scaleModel).isOk) &&
      [⟨16⟩, ⟨17⟩, ⟨18⟩].map table.ownerOf ==
        [some (⟨1⟩, ⟨1⟩), some (⟨1⟩, ⟨2⟩), some (⟨1⟩, ⟨3⟩)]) = true := by
    decide +kernel
  simp only [Run.passes_iff, Bool.and_eq_true, beq_iff_eq] at passes
  obtain ⟨table, made, ⟨⟨⟨ordered, full⟩, reaches⟩, owned⟩⟩ := passes
  have reachable := filled_reachable made
  have fromHand : table.FromHand [⟨16⟩, ⟨17⟩, ⟨18⟩] := ordered ▸ reachable.fromHand
  obtain ⟨chooses, _⟩ := reachable.acquire_victim (FramePool.addressable_of_all reaches) full
    fromHand (by rw [owned]; decide) OwnerScript.owners_steady
    { accessed := [(⟨1⟩, ⟨2⟩)], refusals := [((⟨1⟩, ⟨1⟩), .swapFull)] } {} ⟨1⟩ ⟨4⟩
  simp only [List.map_cons, List.map_nil, List.cons.injEq, and_true] at owned
  obtain ⟨first, second, third⟩ := owned
  have choice := chooses [⟨16⟩, ⟨17⟩] ⟨18⟩ [] rfl (by simp [pageIn, refusalOf, first, second])
    (by simp [pageIn, third]) (by simp [refusalOf, third])
  refine ⟨table, reachable, fromHand, ?_⟩
  convert choice using 1
  · rfl
  · funext page
    simp +contextual [withoutPages, first, second]

end Choice

end FrameTable

end DemandPaging
