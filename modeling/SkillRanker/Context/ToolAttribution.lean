import Mathlib.Data.List.Induction
import SkillRanker.Context.ToolDeliveries

/-! Every delivery is attributed to one call, and a result only to an invocation of its own key. -/

namespace SkillRanker.Context
open SkillRanker.Library

def ToolCall.shape (call : ToolCall) : Delivery × Option Delivery := (call.opening, call.joined)

/-- What a delivery can be joined with: a later result of its own key, if it is an invocation. -/
structure Joins (opening result : Delivery) : Prop where
  ofInvocation : opening.event.kind = .toolInvocation
  ofResult : result.event.kind = .toolResult
  sameKey : opening.key = result.key
  order : opening.position < result.position

/-- The calls are made of the deliveries given, and a key points to a call of its own. -/
structure Attributed (given : List Delivery) (shapes : List (Delivery × Option Delivery))
    (pending : CallKey → Option PendingCall)
    : Prop where
  accounted : (shapes.flatMap fun shape => shape.1 :: shape.2.toList).Perm given
  openings : (shapes.map Prod.fst).Sublist given
  joins : ∀ opening result, (opening, some result) ∈ shapes → Joins opening result
  waiting
    : ∀ key position, pending key = some (.waiting position)
      → ∃ opening, (opening, none) ∈ shapes ∧ opening.position = position ∧ opening.key = key
          ∧ opening.event.kind = .toolInvocation
  completed
    : ∀ key position, pending key = some (.completed position)
      → ∃ opening joined, (opening, joined) ∈ shapes ∧ opening.position = position
          ∧ opening.key = key

def InOrder (given : List Delivery) : Prop := (given.map Delivery.position).Pairwise (· < ·)

variable {given : List Delivery} {shapes : List (Delivery × Option Delivery)}
  {pending : CallKey → Option PendingCall} {delivery : Delivery}

/-- The last delivery is behind the ones before it. -/
theorem InOrder.snoc (ordered : InOrder (given ++ [delivery]))
    : InOrder given ∧ ∀ other ∈ given, other.position < delivery.position := by
  unfold InOrder at ordered
  rw [List.map_append, List.pairwise_append] at ordered
  obtain ⟨before, _, apart⟩ := ordered
  exact ⟨before, fun other mem => apart _ (List.mem_map_of_mem mem) _ (List.mem_singleton_self _)⟩

section

variable (attributed : Attributed given shapes pending)
include attributed

theorem Attributed.distinct (ordered : InOrder given)
    : (shapes.map fun shape => shape.1.position).Nodup := by
  have sublist := (attributed.openings.map Delivery.position)
  rw [List.map_map] at sublist
  exact (ordered.imp Nat.ne_of_lt).sublist sublist

/-- Places of calls are places of deliveries. -/
theorem Attributed.mem_given {shape : Delivery × Option Delivery} (mem : shape ∈ shapes)
    : shape.1 ∈ given :=
  attributed.openings.subset (List.mem_map_of_mem mem)

theorem Attributed.opened (delivery : Delivery)
    : Attributed (given ++ [delivery]) (shapes ++ [(delivery, none)]) pending where
  accounted := by
    rw [List.flatMap_append]
    exact attributed.accounted.append_right _
  openings := by
    rw [List.map_append]
    exact attributed.openings.append_right _
  joins opening result mem := by
    rcases List.mem_append.mp mem with before | last
    · exact attributed.joins opening result before
    · cases List.mem_singleton.mp last
  waiting key position is := by
    obtain ⟨opening, mem, rest⟩ := attributed.waiting key position is
    exact ⟨opening, List.mem_append_left _ mem, rest⟩
  completed key position is := by
    obtain ⟨opening, joined, mem, rest⟩ := attributed.completed key position is
    exact ⟨opening, joined, List.mem_append_left _ mem, rest⟩

/-- A key that becomes ambiguous points to no call. -/
theorem Attributed.ambiguous (key : CallKey)
    : Attributed given shapes (Function.update pending key (some .ambiguous)) := by
  have others {other : CallKey} {call : PendingCall} (is
        : Function.update pending key (some .ambiguous) other = some call)
      (pointing : call ≠ .ambiguous)
      : pending other = some call := by
    by_cases same : other = key
    · rw [same, Function.update_self] at is
      exact absurd (Option.some.inj is).symm pointing
    · rwa [Function.update_of_ne same] at is
  exact {
    accounted := attributed.accounted
    openings := attributed.openings
    joins := attributed.joins
    waiting := fun other position is => attributed.waiting other position (others is nofun)
    completed := fun other position is => attributed.completed other position (others is nofun) }

theorem Attributed.taken (invocation : delivery.event.kind = .toolInvocation)
    : Attributed (given ++ [delivery]) (shapes ++ [(delivery, none)])
        (Function.update pending delivery.key (some delivery.pendingCall)) := by
  have opened := attributed.opened delivery
  have last : (delivery, none) ∈ shapes ++ [(delivery, none)] :=
    List.mem_append_right _ (List.mem_singleton_self _)
  refine { opened with waiting := fun key position is => ?_, completed := fun key position is => ?_ }
  · by_cases same : key = delivery.key
    · rw [same, Function.update_self, Delivery.pendingCall] at is
      split at is
      · cases is
      · cases is
        exact ⟨delivery, last, rfl, same.symm, invocation⟩
    · rw [Function.update_of_ne same] at is
      exact opened.waiting key position is
  · by_cases same : key = delivery.key
    · rw [same, Function.update_self, Delivery.pendingCall] at is
      split at is
      · cases is
        exact ⟨delivery, none, last, rfl, same.symm⟩
      · cases is
    · rw [Function.update_of_ne same] at is
      exact opened.completed key position is

/-- A result joins the call that its key points to. -/
theorem Attributed.joined (ordered : InOrder given) (result : delivery.event.kind = .toolResult)
    (later : ∀ other ∈ given, other.position < delivery.position) {position : Nat}
    (waits : pending delivery.key = some (.waiting position))
    : Attributed (given ++ [delivery])
        (changeAt (fun shape => shape.1.position) position (fun shape => (shape.1, some delivery))
          shapes)
        (Function.update pending delivery.key (some (.completed position))) := by
  obtain ⟨opening, mem, rfl, key, invocation⟩ := attributed.waiting _ _ waits
  obtain ⟨before, after, rfl⟩ := List.append_of_mem mem
  have distinct := attributed.distinct ordered
  rw [List.map_append, List.map_cons, List.nodup_append] at distinct
  obtain ⟨_, distinct, apart⟩ := distinct
  have changed : changeAt (fun shape => shape.1.position) opening.position
        (fun shape => (shape.1, some delivery)) (before ++ (opening, none) :: after)
      = before ++ (opening, some delivery) :: after := by
    rw [changeAt_append, changeAt_of_absent]
    · have rest : changeAt (fun shape : Delivery × Option Delivery => shape.1.position)
            opening.position (fun shape => (shape.1, some delivery)) after
          = after :=
        changeAt_of_absent (List.nodup_cons.mp distinct).1
      unfold changeAt at rest ⊢
      rw [List.map_cons, if_pos rfl, rest]
    · intro there
      exact apart _ there _ List.mem_cons_self rfl
  rw [changed]
  have listed : (opening, none) ∈ before ++ (opening, none) :: after :=
    List.mem_append_right _ List.mem_cons_self
  have kept {shape : Delivery × Option Delivery}
      (mem : shape ∈ before ++ (opening, none) :: after) (different : shape.1.key ≠ delivery.key)
      : shape ∈ before ++ (opening, some delivery) :: after := by
    rcases List.mem_append.mp mem with first | rest
    · exact List.mem_append_left _ first
    · rcases List.mem_cons.mp rest with rfl | rest
      · exact absurd key different
      · exact List.mem_append_right _ (List.mem_cons_of_mem _ rest)
  have whole := attributed.accounted
  have sublist := attributed.openings
  rw [List.flatMap_append, List.flatMap_cons] at whole
  rw [List.map_append, List.map_cons] at sublist
  refine {
    accounted := ?_
    openings := ?_
    joins := fun one other mem => ?_
    waiting := fun other position is => ?_
    completed := fun other position is => ?_ }
  · rw [List.flatMap_append, List.flatMap_cons]
    refine List.Perm.trans ?_ (whole.append_right [delivery])
    rw [List.append_assoc]
    refine List.Perm.append_left _ (List.Perm.cons _ ?_)
    exact (List.perm_append_singleton _ _).symm
  · rw [List.map_append, List.map_cons]
    exact sublist.trans (List.sublist_append_left _ _)
  · rcases List.mem_append.mp mem with first | rest
    · exact attributed.joins one other (List.mem_append_left _ first)
    · rcases List.mem_cons.mp rest with is | rest
      · cases is
        exact ⟨invocation, result, key, later _ (attributed.mem_given listed)⟩
      · exact attributed.joins one other
          (List.mem_append_right _ (List.mem_cons_of_mem _ rest))
  · by_cases same : other = delivery.key
    · rw [same, Function.update_self] at is
      cases is
    · rw [Function.update_of_ne same] at is
      obtain ⟨first, mem, placed, own, kind⟩ := attributed.waiting other position is
      exact ⟨first, kept mem (own.trans_ne same), placed, own, kind⟩
  · by_cases same : other = delivery.key
    · rw [same, Function.update_self] at is
      cases is
      exact ⟨opening, some delivery, List.mem_append_right _ List.mem_cons_self, rfl,
        key.trans same.symm⟩
    · rw [Function.update_of_ne same] at is
      obtain ⟨first, joined, mem, placed, own⟩ := attributed.completed other position is
      exact ⟨first, joined, kept mem (own.trans_ne same), placed, own⟩

end

-- Steps

/-- Calls whose outcomes become unknown keep their deliveries. -/
theorem map_shape_unknown (position : Nat) (calls : List ToolCall)
    : (changeAt ToolCall.position position ToolCall.unknown calls).map ToolCall.shape
      = calls.map ToolCall.shape :=
  map_changeAt fun _ => rfl

theorem map_shape_collide (previous next : Nat) (calls : List ToolCall)
    : (collide previous next calls).map ToolCall.shape = calls.map ToolCall.shape := by
  unfold collide
  rw [map_shape_unknown, map_shape_unknown]

def Attribution.Accounts (state : Attribution) (given : List Delivery) : Prop :=
  Attributed given (state.calls.map ToolCall.shape) state.pending

theorem Attribution.Accounts.step {state : Attribution} (accounts : state.Accounts given)
    (ordered : InOrder given) (later : ∀ other ∈ given, other.position < delivery.position)
    : (state.step delivery).Accounts (given ++ [delivery]) := by
  have attributed : Attributed given (state.calls.map ToolCall.shape) state.pending := accounts
  have opened := attributed.opened delivery
  have alone : [delivery.reported].map ToolCall.shape = [(delivery, none)] := rfl
  have unknown : [delivery.reported.unknown].map ToolCall.shape = [(delivery, none)] := rfl
  unfold Accounts Attribution.step
  split
  · next invocation =>
    unfold Attribution.invoke
    dsimp only
    split
    · rw [List.map_append, alone]
      exact attributed.taken invocation
    · split
      · rw [List.map_append, alone]
        exact attributed.taken invocation
      · rw [map_shape_collide, List.map_append, alone]
        exact opened.ambiguous _
    · rw [map_shape_collide, List.map_append, alone]
      exact opened.ambiguous _
    · rw [map_shape_unknown, List.map_append, alone]
      exact opened
  · next result =>
    unfold Attribution.answer
    dsimp only
    split
    · rw [List.map_append, alone]
      exact opened
    · next position waits =>
      have view
          : (changeAt ToolCall.position position (ToolCall.join delivery) state.calls).map
              ToolCall.shape
            = changeAt (fun shape => shape.1.position) position
                (fun shape => (shape.1, some delivery)) (state.calls.map ToolCall.shape) :=
        map_changeAt_view (fun _ => rfl) fun _ => rfl
      rw [view]
      exact attributed.joined ordered result later waits
    · rw [List.map_append, map_shape_unknown, unknown]
      exact opened.ambiguous _
    · rw [List.map_append, unknown]
      exact opened
  · rw [List.map_append, alone]
    exact opened

theorem attributeAll_snoc (given : List Delivery) (delivery : Delivery)
    : attributeAll (given ++ [delivery]) = (attributeAll given).step delivery := by
  unfold attributeAll
  rw [List.foldl_append, List.foldl_cons, List.foldl_nil]

theorem attributeAll_accounts (ordered : InOrder given) : (attributeAll given).Accounts given := by
  induction given using List.reverseRecOn with
  | nil =>
      exact {
        accounted := .nil
        openings := .slnil
        joins := fun _ _ mem => absurd mem List.not_mem_nil
        waiting := fun _ position is =>
          absurd (show none = some (PendingCall.waiting position) from is) nofun
        completed := fun _ position is =>
          absurd (show none = some (PendingCall.completed position) from is) nofun }
  | append_singleton before delivery ih =>
      obtain ⟨beforeOrdered, later⟩ := ordered.snoc
      rw [attributeAll_snoc]
      exact (ih beforeOrdered).step beforeOrdered later

end SkillRanker.Context
