import SkillRanker.Roster.Permutation
import SkillRanker.Roster.Revalidation

/-! Two resolved rosters of one digest: their skills stand in the order that the digest covers, and
they answer alike.
-/

namespace SkillRanker.Roster.Revalidation

open SkillRanker.Library

variable {skill : ResolvedSkill} {clock : Jev.InvocationDeadline} {checkpoints : Nat → Checkpoint}
  {content : ContentHash}

-- The order of skills and bindings

/-- What a resolution keeps of a skill from its registration on. -/
structure Outline where
  id : SkillId
  content : ContentHash
  bindings : List SkillId

def outlineOf (skill : ResolvedSkill) : Outline where
  id := skill.record.id
  content := skill.record.sourceContent
  bindings := skill.bindings.map (·.id)

/-- What holds of all items before a change, and what of the changed one, holds of all after it. -/
theorem forall_modify {α : Type} (before : α → Prop) {after : α → Prop} {items : List α}
    {index : Nat} {change : α → α} (holds : ∀ item ∈ items, before item)
    (kept : ∀ item, before item → after item)
    (changed : ∀ item, before item → after (change item))
    : ∀ item ∈ items.modify index change, after item := by
  intro item mem
  obtain ⟨place, found⟩ := List.mem_iff_getElem?.mp mem
  rw [List.getElem?_modify] at found
  obtain ⟨known, there, rfl⟩ := Option.map_eq_some_iff.mp found
  have here := holds known (List.mem_of_getElem? there)
  split
  · exact changed known here
  · exact kept known here

theorem modify_last {α : Type} (items : List α) (last : α) (change : α → α)
    : (items ++ [last]).modify items.length change = items ++ [change last] := by
  induction items with
  | nil => rfl
  | cons item rest ih =>
      rw [List.cons_append, List.length_cons, List.modify_succ_cons, ih, List.cons_append]

theorem map_modify {α β : Type} {view : α → β} {change : α → α}
    (same : ∀ item, view (change item) = view item) (items : List α) (index : Nat)
    : (items.modify index change).map view = items.map view := by
  induction items generalizing index with
  | nil => rw [List.modify_nil]
  | cons item rest ih =>
      cases index with
      | zero => rw [List.modify_zero_cons, List.map_cons, List.map_cons, same]
      | succ index => rw [List.modify_succ_cons, List.map_cons, List.map_cons, ih]

/-- The bindings of a skill stand in the order of entries, and its content is that of one. -/
structure MadeOf (entries : List SkillEntry) (skill : ResolvedSkill) : Prop where
  bindings : (skill.bindings.map (·.id)).Sublist (idsOf entries)
  content : ∃ entry ∈ entries, skill.record.sourceContent = entry.record.sourceContent

/-- The skills and their bindings stand in the order of the entries they are made of. -/
structure Listed (entries : List SkillEntry) (skills : List ResolvedSkill) : Prop where
  records : (skills.map fun skill => skill.record.id).Sublist (idsOf entries)
  made : ∀ skill ∈ skills, MadeOf entries skill

variable {entries : List SkillEntry}

theorem MadeOf.of_outline {other : ResolvedSkill} (made : MadeOf entries skill)
    (same : outlineOf skill = outlineOf other)
    : MadeOf entries other := by
  have bindings : skill.bindings.map (·.id) = other.bindings.map (·.id) :=
    congrArg Outline.bindings same
  have content : skill.record.sourceContent = other.record.sourceContent :=
    congrArg Outline.content same
  exact ⟨bindings ▸ made.bindings, content ▸ made.content⟩

/-- The outlines of skills decide whether they stand in the order of entries. -/
theorem Listed.of_outlines {skills others : List ResolvedSkill} (listed : Listed entries skills)
    (same : others.map outlineOf = skills.map outlineOf)
    : Listed entries others := by
  refine ⟨?_, fun skill mem => ?_⟩
  · have ids := congrArg (List.map Outline.id) same
    rw [List.map_map, List.map_map] at ids
    exact (show others.map (fun skill => skill.record.id) = _ from ids) ▸ listed.records
  · have mapped : outlineOf skill ∈ skills.map outlineOf := same ▸ List.mem_map_of_mem mem
    obtain ⟨known, inSkills, equal⟩ := List.mem_map.mp mapped
    exact (listed.made known inSkills).of_outline equal

/-- What `from_read` ensures of an entry, and withholding its name keeps. -/
structure Authentic (entry : SkillEntry) : Prop where
  ownId : entry.record.id = entry.binding.id
  hashed : entry.record.sourceContent ≠ "-"

theorem idsOf_snoc (entries : List SkillEntry) (entry : SkillEntry)
    : idsOf (entries ++ [entry]) = idsOf entries ++ [entry.binding.id] := by
  rw [idsOf, idsOf, List.map_append]
  rfl

theorem MadeOf.snoc (made : MadeOf entries skill) (entry : SkillEntry)
    : MadeOf (entries ++ [entry]) skill := by
  obtain ⟨known, mem, same⟩ := made.content
  refine ⟨made.bindings.trans ?_, known, List.mem_append_left _ mem, same⟩
  rw [idsOf_snoc]
  exact List.sublist_append_left _ _

/-- A skill with one more binding behind those it has. -/
theorem MadeOf.bind (made : MadeOf entries skill) (entry : SkillEntry)
    : MadeOf (entries ++ [entry]) { skill with bindings := skill.bindings ++ [entry.binding] } := by
  refine ⟨?_, (made.snoc entry).content⟩
  rw [idsOf_snoc, List.map_append]
  exact made.bindings.append (List.Sublist.refl _)

variable {registry : Registry}

/-- A registered entry comes behind those before it. -/
theorem Listed.register {next : Registry} (listed : Listed entries registry.skills)
    {entry : SkillEntry} (authentic : Authentic entry)
    (accepted : registry.register entry = .ok next)
    : Listed (entries ++ [entry]) next.skills := by
  unfold Registry.register at accepted
  split at accepted
  next => cases accepted
  next =>
      split at accepted
      next file seen =>
          split at accepted
          next => cases accepted
          next =>
              cases accepted
              refine ⟨?_, ?_⟩
              · have longer := listed.records.trans (List.sublist_append_left _ [entry.binding.id])
                rw [← idsOf_snoc] at longer
                convert longer using 1
                refine Eq.trans (map_modify ?_ _ _) (map_modify ?_ _ _)
                · exact fun _ => rfl
                · exact fun _ => rfl
              · refine forall_modify (MadeOf entries) ?_ (fun _ made => made.snoc entry)
                  (fun _ made => made.bind entry)
                exact forall_modify (MadeOf entries) listed.made (fun _ made => made)
                  (fun _ made => ⟨made.bindings, made.content⟩)
      next unseen =>
          cases accepted
          rw [Registry.bind]
          dsimp only
          rw [modify_last]
          refine ⟨?_, fun skill mem => ?_⟩
          · rw [List.map_append, idsOf_snoc, ← authentic.ownId]
            exact listed.records.append (List.Sublist.refl _)
          · rcases List.mem_append.mp mem with earlier | last
            · exact (listed.made skill earlier).snoc entry
            · cases List.mem_singleton.mp last
              refine ⟨?_, entry, List.mem_append_right _ (List.mem_singleton.mpr rfl), rfl⟩
              rw [idsOf_snoc]
              exact List.sublist_append_right _ _

/-- All entries stand in their order, by induction on them. -/
theorem Listed.registerAll {passed : Nat} {earlier : List SkillEntry} {final : Registry}
    (listed : Listed earlier registry.skills) (authentic : ∀ entry ∈ entries, Authentic entry)
    (accepted : registerAll clock checkpoints passed registry entries = .ok final)
    : Listed (earlier ++ entries) final.skills := by
  induction entries generalizing passed earlier registry with
  | nil =>
      cases accepted
      rwa [List.append_nil]
  | cons entry rest ih =>
      simp only [Roster.registerAll, bind_eq_ok] at accepted
      obtain ⟨_, _, next, taken, later⟩ := accepted
      have here := listed.register (authentic entry List.mem_cons_self) taken
      have whole := ih here (fun other mem => authentic other (List.mem_cons_of_mem _ mem)) later
      rwa [List.append_assoc] at whole

variable (skills : List ResolvedSkill)

theorem collide_id (group : List (Position × Binding)) (position : Position) (binding : Binding)
    : (collide skills group position binding).id = binding.id := by
  cases group with
  | nil => rfl
  | cons first rest =>
      unfold collide
      dsimp only
      split
      · rfl
      · split
        · split <;> rfl
        · rfl

theorem outlines_resolveCollision (positions : List Position)
    : (resolveCollision skills positions).map outlineOf = skills.map outlineOf := by
  unfold resolveCollision
  dsimp only
  generalize groupAt skills positions = group
  have kept (others : List ResolvedSkill) (place : Position)
      : (modifyBinding others place (collide skills group place)).map outlineOf
        = others.map outlineOf := by
    refine map_modify (fun skill => ?_) others place.1
    have ids := map_modify (collide_id skills group place) skill.bindings place.2
    rw [outlineOf, ids, outlineOf]
  suffices folded : ∀ others : List ResolvedSkill,
      (positions.foldl (fun resolved place =>
        modifyBinding resolved place (collide skills group place)) others).map outlineOf
      = others.map outlineOf from folded skills
  induction positions with
  | nil => exact fun others => rfl
  | cons place rest ih => exact fun others => (ih _).trans (kept others place)

theorem outlines_resolveNames {passed : Nat} {skills resolved : List ResolvedSkill}
    {named : List (List Position)}
    (accepted : resolveNames clock checkpoints passed skills named = .ok resolved)
    : resolved.map outlineOf = skills.map outlineOf := by
  induction named generalizing passed skills with
  | nil =>
      cases accepted
      rfl
  | cons positions rest ih =>
      simp only [resolveNames, bind_eq_ok] at accepted
      obtain ⟨_, _, later⟩ := accepted
      exact (ih later).trans (outlines_resolveCollision skills positions)

theorem outlines_settle
    : (skills.map ResolvedSkill.settle).map outlineOf = skills.map outlineOf := by
  rw [List.map_map]
  refine List.map_congr_left fun skill _ => ?_
  obtain ⟨record, bindings⟩ := skill
  cases bindings <;> rfl

variable {roster : ResolvedRoster}

/-- The skills of a resolved roster stand in the order of its entries. -/
theorem resolve_listed {partialCoverage : Bool} (authentic : ∀ entry ∈ entries, Authentic entry)
    (done : resolve clock checkpoints entries partialCoverage = .ok roster)
    : Listed (sortEntries entries) roster.skills ∧ entries.length ≤ discoveryFiles := by
  simp only [resolve, bind_eq_ok, pure_eq_ok, ensure_eq_ok] at done
  obtain ⟨_, _, _, few, _, _, _, _, registry, taken, resolved, settled, _, _, rfl⟩ := done
  refine ⟨?_, few⟩
  have empty : Listed [] Registry.empty.skills := ⟨List.Sublist.slnil, fun _ mem => by cases mem⟩
  have registered := empty.registerAll
    (fun entry mem => authentic entry (List.mem_mergeSort.mp mem)) taken
  exact registered.of_outlines ((outlines_settle resolved).trans (outlines_resolveNames settled))

theorem idsOf_sorted (entries : List SkillEntry)
    : (idsOf (sortEntries entries)).Pairwise
        fun left right => (compare left right).isLE = true := by
  have sorted : (sortEntries entries).Pairwise fun left right =>
      (compare left.binding.id right.binding.id).isLE = true :=
    List.pairwise_mergeSort (fun _ _ _ => Std.TransCmp.isLE_trans)
      (fun one two => isLE_total one.binding.id two.binding.id) entries
  exact List.pairwise_map.mpr sorted

/-- The skills and their bindings stand in the order that the digest sorts them into. -/
theorem Listed.sorted {skills : List ResolvedSkill} (listed : Listed (sortEntries entries) skills)
    : sortResolved skills = skills
      ∧ ∀ skill ∈ skills, sortBindings skill.bindings = skill.bindings := by
  refine ⟨List.mergeSort_of_pairwise ?_, fun skill mem => List.mergeSort_of_pairwise ?_⟩
  · exact List.pairwise_map.mp ((idsOf_sorted entries).sublist listed.records)
  · exact List.pairwise_map.mp ((idsOf_sorted entries).sublist (listed.made skill mem).bindings)

-- Answers

/-- What a roster says of a skill but for its content and priorities. -/
def plainView (skill : ResolvedSkill) : SkillId × List BindingView :=
  (skill.record.id, skill.bindings.map viewOf)

def viewAt (skills : List ResolvedSkill) (position : Position) : Option BindingView :=
  (bindingAt skills position).map viewOf

theorem viewAt_eq (position : Position)
    : viewAt skills position
      = (skills.map plainView)[position.1]?.bind fun view => view.2[position.2]? := by
  rw [viewAt, bindingAt_eq, List.getElem?_map]
  cases skills[position.1]? with
  | none => rfl
  | some skill => simp [plainView]

/-- An answer is about a binding but for its priority. -/
theorem exact_congr {left right : Binding} (same : viewOf left = viewOf right)
    : exact left = exact right := by
  obtain ⟨id, source, invocation, visibility, restrictions, priority⟩ := left
  obtain ⟨id', source', invocation', visibility', restrictions', priority'⟩ := right
  simp only [viewOf, BindingView.mk.injEq] at same
  obtain ⟨rfl, rfl, rfl, rfl, rfl⟩ := same
  rfl

/-- Optional bindings of one view have one answer. -/
theorem map_exact_congr {left right : Option Binding} (same : left.map viewOf = right.map viewOf)
    : left.map exact = right.map exact := by
  cases left <;> cases right
  · rfl
  · cases same
  · cases same
  · exact congrArg some (exact_congr (Option.some.inj same))

def answerOf (bindings : List Binding) : ExactResolution :=
  match bindings.find? (fun binding => binding.visibility.isVerified) with
  | some binding => exact binding
  | none => (bindings.head?.map exact).getD .missing

theorem answerOf_congr {left right : List Binding} (same : left.map viewOf = right.map viewOf)
    : answerOf left = answerOf right := by
  have verified : (left.find? fun binding => binding.visibility.isVerified).map exact
      = (right.find? fun binding => binding.visibility.isVerified).map exact := by
    refine map_exact_congr ?_
    have found (bindings : List Binding)
        : (bindings.find? fun binding => binding.visibility.isVerified).map viewOf
          = (bindings.map viewOf).find? fun view => view.visibility.isVerified := by
      rw [List.find?_map]
      rfl
    rw [found, found, same]
  have heads : left.head?.map exact = right.head?.map exact := by
    refine map_exact_congr ?_
    rw [← List.head?_map, ← List.head?_map, same]
  have answer (bindings : List Binding)
      : answerOf bindings
        = ((bindings.find? fun binding => binding.visibility.isVerified).map exact).getD
            ((bindings.head?.map exact).getD .missing) := by
    unfold answerOf
    cases bindings.find? fun binding => binding.visibility.isVerified <;> rfl
  rw [answer, answer, verified, heads]

def contentOf (roster : ResolvedRoster) (id : SkillId) : Option ContentHash :=
  (roster.skills.find? fun skill => skill.record.id = id).map
    fun skill => skill.record.sourceContent

def advisoryView (advised : AdvisorySkill) : SkillId × BindingView :=
  (advised.record.id, viewOf advised.binding)

theorem advisory_view (roster : ResolvedRoster)
    : roster.advisory.map advisoryView
      = (roster.skills.map plainView).filterMap fun view =>
          (view.2.find? fun binding =>
            binding.visibility.isVerified && binding.restrictions.agentInvocable).map
              fun binding => (view.1, binding) := by
  rw [ResolvedRoster.advisory, List.map_filterMap, List.filterMap_map]
  refine List.filterMap_congr fun skill _ => ?_
  simp only [Function.comp_def, plainView, List.find?_map, Option.map_map]
  rfl

section Placed

variable {entries others : List SkillEntry} {roster other : ResolvedRoster}
  {placed placed' : List (SkillEntry × Position)} {skills skills' : List ResolvedSkill}

theorem ids_iff_viewAt (placement : Placement entries roster placed skills) (id : SkillId)
    (position : Position)
    : roster.ids[id]? = some position
      ↔ ∃ view, viewAt roster.skills position = some view ∧ view.id = id := by
  rw [placement.ids]
  constructor
  · rintro ⟨entry, member, rfl⟩
    refine ⟨_, by rw [viewAt, placement.settled entry position member]; rfl, ?_⟩
    exact collide_id ..
  · rintro ⟨view, seen, rfl⟩
    obtain ⟨binding, found, rfl⟩ := Option.map_eq_some_iff.mp seen
    obtain ⟨entry, member⟩ := placement.only position binding found
    exact ⟨entry, member, (placement.ends_of_place member found).2.id.symm⟩

variable {position : Position}

/-- The positions of a name are those with a binding of that name. -/
theorem mem_positions_iff (placement : Placement entries roster placed skills) {name : String}
    : position ∈ positionsOf placed name
      ↔ ∃ view, viewAt roster.skills position = some view ∧ view.invocation.text = name := by
  rw [mem_positionsOf]
  constructor
  · rintro ⟨entry, member, rfl⟩
    have found := placement.settled entry position member
    refine ⟨_, by rw [viewAt, found]; rfl, ?_⟩
    exact congrArg InvocationName.text (placement.ends_of_place member found).2.invocation
  · rintro ⟨view, seen, rfl⟩
    obtain ⟨binding, found, rfl⟩ := Option.map_eq_some_iff.mp seen
    obtain ⟨entry, member⟩ := placement.only position binding found
    refine ⟨entry, member, ?_⟩
    exact (congrArg InvocationName.text (placement.ends_of_place member found).2.invocation).symm

def idAt (skills : List ResolvedSkill) (position : Position) : SkillId :=
  ((viewAt skills position).map (·.id)).getD ""

section

variable (placement : Placement entries roster placed skills)
include placement

theorem idAt_of_placed {entry : SkillEntry} (member : (entry, position) ∈ placed)
    : idAt roster.skills position = entry.binding.id := by
  rw [idAt, viewAt, placement.settled entry position member]
  exact collide_id ..

/-- The positions of a name stand in the order of their ids. -/
theorem positions_sorted (name : String)
    : (positionsOf placed name).Pairwise fun left right =>
        (compare (idAt roster.skills left) (idAt roster.skills right)).isLE = true := by
  have sorted := idsOf_sorted entries
  rw [idsOf, ← placement.sorted, List.map_map, List.pairwise_map] at sorted
  refine List.pairwise_map.mpr ((sorted.filter _).imp_of_mem ?_)
  intro left right inLeft inRight below
  rw [idAt_of_placed placement (List.mem_of_mem_filter inLeft),
    idAt_of_placed placement (List.mem_of_mem_filter inRight)]
  exact below

/-- Rosters with the same bindings have the same positions for a name. -/
theorem positions_congr (placement' : Placement others other placed' skills')
    (same : ∀ position, viewAt roster.skills position = viewAt other.skills position)
    (name : String)
    : positionsOf placed name = positionsOf placed' name := by
  have perm : (positionsOf placed name).Perm (positionsOf placed' name) := by
    refine (List.perm_ext_iff_of_nodup (nodup_positionsOf placement.ordered name)
      (nodup_positionsOf placement'.ordered name)).mpr fun position => ?_
    rw [mem_positions_iff placement, mem_positions_iff placement', same]
  have sorted' := positions_sorted placement' name
  have ids : idAt other.skills = idAt roster.skills := by
    funext position
    rw [idAt, idAt, same]
  rw [ids] at sorted'
  refine perm.eq_of_pairwise ?_ (positions_sorted placement name) sorted'
  intro left right inLeft inRight below above
  have equal := Std.LawfulEqCmp.eq_of_compare (Std.OrientedCmp.isLE_antisymm below above)
  obtain ⟨entry, member, -⟩ := mem_positionsOf.mp inLeft
  obtain ⟨entry', member', -⟩ := mem_positionsOf.mp (perm.mem_iff.mpr inRight)
  rw [idAt_of_placed placement member, idAt_of_placed placement member'] at equal
  exact placement.eq_of_id member member' equal

end

end Placed

-- Two rosters of one digest

def Resolved (roster : ResolvedRoster) : Prop :=
  ∃ (clock : Jev.InvocationDeadline) (checkpoints : Nat → Checkpoint) (entries : List SkillEntry)
    (partialCoverage : Bool),
    (∀ entry ∈ entries, Authentic entry)
    ∧ resolve clock checkpoints entries partialCoverage = .ok roster

/-- What two rosters with scopes have in common where their digests are equal. -/
structure Unchanged (left right : Resolution) (leftScope rightScope : List SkillId) : Prop where
  partialCoverage : left.roster.partialCoverage = right.roster.partialCoverage
  /-- The same skills in the same order, each with the same bindings but for their priorities. -/
  skills : left.roster.skills.map plainView = right.roster.skills.map plainView
  /-- The same content of every skill in scope. -/
  contents
    : ∀ id, id ∈ leftScope ∨ id ∈ rightScope →
        contentOf left.roster id = contentOf right.roster id
  /-- The same causes of excluded records, but for those that leave a scope unobserved. -/
  excluded : (excludedCodes left.diagnostics).Perm (excludedCodes right.diagnostics)
  advisory
    : left.roster.advisory.map advisoryView = right.roster.advisory.map advisoryView
  exactId : ∀ id, left.roster.exactId id = right.roster.exactId id
  exactName : ∀ name, left.roster.exactName name = right.roster.exactName name

/-- Resolved rosters with the same skills and bindings answer alike. -/
theorem answers_congr {other : ResolvedRoster} (resolved : Resolved roster)
    (resolved' : Resolved other) (same : roster.skills.map plainView = other.skills.map plainView)
    : (∀ id, roster.exactId id = other.exactId id)
      ∧ ∀ name, roster.exactName name = other.exactName name := by
  obtain ⟨clock, checkpoints, entries, partialCoverage, -, done⟩ := resolved
  obtain ⟨clock', checkpoints', entries', partialCoverage', -, done'⟩ := resolved'
  obtain ⟨placed, skills, placement⟩ := resolve_placement done
  obtain ⟨placed', skills', placement'⟩ := resolve_placement done'
  have views (position : Position)
      : viewAt roster.skills position = viewAt other.skills position := by
    rw [viewAt_eq, viewAt_eq, same]
  constructor
  · intro id
    have ids : roster.ids[id]? = other.ids[id]? := by
      refine Option.ext fun position => ?_
      rw [ids_iff_viewAt placement, ids_iff_viewAt placement', views]
    unfold ResolvedRoster.exactId
    rw [ids]
    cases other.ids[id]? with
    | none => rfl
    | some position => exact congrArg (·.getD .missing) (map_exact_congr (views position))
  · intro name
    have answer {roster : ResolvedRoster} {positions : List Position}
        (names : roster.names[name]? = if positions = [] then none else some positions)
        : roster.exactName name = answerOf (positions.filterMap (bindingAt roster.skills)) := by
      unfold ResolvedRoster.exactName
      rw [names]
      by_cases none : positions = []
      · rw [if_pos none, none]
        rfl
      · rw [if_neg none]
        rfl
    rw [answer (placement.names name), answer (placement'.names name),
      positions_congr placement placement' views name]
    refine answerOf_congr ?_
    rw [List.map_filterMap, List.map_filterMap]
    exact List.filterMap_congr fun position _ => views position

/-- The digest tells whether a skill is in scope, and its content there. -/
theorem contents_congr {left right : ResolvedRoster} {leftScope rightScope : List SkillId}
    (hashed : ∀ skill ∈ left.skills, skill.record.sourceContent ≠ "-")
    (hashed' : ∀ skill ∈ right.skills, skill.record.sourceContent ≠ "-")
    (same
      : left.skills.map (skillView leftScope) = right.skills.map (skillView rightScope))
    {id : SkillId} (inScope : id ∈ leftScope ∨ id ∈ rightScope)
    : contentOf left id = contentOf right id := by
  have find (scope : List SkillId) (skills : List ResolvedSkill)
      : (skills.map (skillView scope)).find? (fun view => view.id = id)
        = (skills.find? fun skill => skill.record.id = id).map (skillView scope) := by
    rw [List.find?_map]
    rfl
  have found := find leftScope left.skills
  rw [same, find] at found
  unfold contentOf
  cases one : left.skills.find? fun skill => skill.record.id = id with
  | none =>
      rw [one] at found
      rw [Option.map_eq_none_iff.mp found]
  | some skill =>
      rw [one] at found
      obtain ⟨other, two, views⟩ := Option.map_eq_some_iff.mp found
      rw [two]
      have isId : skill.record.id = id := by simpa using List.find?_some one
      have isId' : other.record.id = id := by simpa using List.find?_some two
      have texts : contentText rightScope other.record = contentText leftScope skill.record :=
        congrArg SkillView.content views
      have solid := hashed skill (List.mem_of_find?_eq_some one)
      have solid' := hashed' other (List.mem_of_find?_eq_some two)
      rw [contentText, contentText, isId, isId'] at texts
      refine congrArg some ?_
      by_cases inLeft : id ∈ leftScope
      · rw [if_pos inLeft] at texts
        split at texts
        · exact texts.symm
        · exact absurd texts.symm solid
      · rw [if_pos (inScope.resolve_left inLeft), if_neg inLeft] at texts
        exact absurd texts solid'

/-- What the digest needs of a roster: counts within a word, an order, and real contents. -/
theorem Resolved.laid (resolved : Resolved roster)
    : roster.skills.length ≤ usizeMax
      ∧ Counted roster.skills
      ∧ sortResolved roster.skills = roster.skills
      ∧ (∀ skill ∈ roster.skills, sortBindings skill.bindings = skill.bindings)
      ∧ ∀ skill ∈ roster.skills, skill.record.sourceContent ≠ "-" := by
  obtain ⟨clock, checkpoints, entries, partialCoverage, authentic, done⟩ := resolved
  obtain ⟨listed, few⟩ := resolve_listed authentic done
  have bound : (idsOf (sortEntries entries)).length ≤ usizeMax := by
    rw [idsOf, List.length_map, sortEntries, List.length_mergeSort]
    exact few.trans (by decide)
  have sorted := listed.sorted
  refine ⟨?_, fun skill mem => ?_, sorted.1, sorted.2, fun skill mem => ?_⟩
  · have within := listed.records.length_le
    rw [List.length_map] at within
    exact within.trans bound
  · have within := (listed.made skill mem).bindings.length_le
    rw [List.length_map] at within
    exact within.trans bound
  · obtain ⟨entry, inEntries, same⟩ := (listed.made skill mem).content
    rw [same]
    exact (authentic entry (List.mem_mergeSort.mp inEntries)).hashed

/-- Two resolved rosters of one digest have the same skills, bindings but for priorities, contents
in scope and settled exclusions, and answer alike.
-/
theorem unchanged_of_digest {Hash : Type} {fromBytes : Bytes → Hash}
    (collisionFree : Function.Injective fromBytes) {left right : Resolution}
    {leftScope rightScope : List SkillId} (resolved : Resolved left.roster)
    (resolved' : Resolved right.roster) (fits : Fits (digestParts left leftScope))
    (fits' : Fits (digestParts right rightScope))
    (same : digest fromBytes left leftScope = digest fromBytes right rightScope)
    : Unchanged left right leftScope rightScope := by
  obtain ⟨few, counted, sorted, ordered, hashed⟩ := resolved.laid
  obtain ⟨few', counted', sorted', ordered', hashed'⟩ := resolved'.laid
  have covered := covered_of_digest collisionFree fits fits' counted counted' few few' same
  have views := covered.skills
  rw [sorted, sorted'] at views
  have plain (scope : List SkillId) {skills : List ResolvedSkill}
      (ordered : ∀ skill ∈ skills, sortBindings skill.bindings = skill.bindings)
      : (skills.map (skillView scope)).map (fun view => (view.id, view.bindings))
        = skills.map plainView := by
    rw [List.map_map]
    refine List.map_congr_left fun skill mem => ?_
    simp only [Function.comp_def, skillView, plainView, ordered skill mem]
  have skills : left.roster.skills.map plainView = right.roster.skills.map plainView := by
    rw [← plain leftScope ordered, views, plain rightScope ordered']
  obtain ⟨exactId, exactName⟩ := answers_congr resolved resolved' skills
  exact {
    partialCoverage := covered.partialCoverage
    skills
    contents := fun id inScope => contents_congr hashed hashed' views inScope
    excluded := covered.excluded
    advisory := by rw [advisory_view, advisory_view, skills]
    exactId
    exactName
  }

-- What the digest leaves out

/-- A roster of one skill with a content and a priority, beside the records that were excluded. -/
def oneSkill (content : ContentHash) (priority : Option Int)
    (diagnostics : List (Nat × ResolutionError))
    : Resolution :=
  let entry := sampleEntry "a" 1 content
  {
    roster :=
      {
        skills := [{ record := entry.record, bindings := [{ entry.binding with priority }] }]
        ids := (∅ : Std.TreeMap SkillId Position compare).insert "a" (0, 0)
        names := (∅ : Std.TreeMap String (List Position) compare).insert "review" [(0, 0)]
        partialCoverage := true
      }
    diagnostics
    sources := []
  }

theorem oneSkill_resolved (hashed : content ≠ "-") (priority : Option Int)
    (diagnostics : List (Nat × ResolutionError))
    : Resolved (oneSkill content priority diagnostics).roster := by
  let entry := sampleEntry "a" 1 content
  let made := { entry with binding := { entry.binding with priority } }
  refine ⟨.default, fun _ => { cancelled := false, now := 0 }, [made], true, ?_, ?_⟩
  · intro other mem
    cases List.mem_singleton.mp mem
    exact ⟨rfl, hashed⟩
  · rw [resolve, sortEntries, List.mergeSort_singleton]
    rfl

variable {diagnostics : List (Nat × ResolutionError)} {priority : Option Int}

/-- Neither the priority of a binding nor an unobserved record is covered. -/
theorem digestParts_oneSkill (unobserved : excludedCodes diagnostics = []) (scope : List SkillId)
    : digestParts (oneSkill content priority diagnostics) scope
      = [
          utf8 revalidationVersion, [1], littleEndian 8 1, utf8 "a",
          utf8 (if "a" ∈ scope then content else "-"), littleEndian 8 1, utf8 "a", utf8 "project",
          utf8 "review", utf8 "verified:1", [1, 1]
        ] := by
  have codes : (sortCodes (excludedCodes (oneSkill content priority diagnostics).diagnostics)).map
      utf8 = [] := by
    change (sortCodes (excludedCodes diagnostics)).map utf8 = []
    rw [unobserved, sortCodes, List.mergeSort_nil, List.map_nil]
  rw [digestParts, codes, List.append_nil]
  simp only [oneSkill, sortResolved, List.mergeSort_singleton, List.flatMap_cons, skillParts,
    sortBindings]
  rfl

theorem fits_oneSkill (unobserved : excludedCodes diagnostics = [])
    : Fits (digestParts (oneSkill content priority diagnostics) []) := by
  have small : (digestParts (oneSkill content priority diagnostics) []).all
      (fun part => part.length ≤ usizeMax) = true := by
    rw [digestParts_oneSkill unobserved, if_neg List.not_mem_nil]
    decide +kernel
  intro part mem
  simpa using List.all_eq_true.mp small part mem

/-- Rosters of one digest may differ in a priority, in a record that could not be read, and in the
content of a skill out of scope.
-/
theorem digest_uncovered
    : ∃ left right : Resolution,
        Resolved left.roster
        ∧ Resolved right.roster
        ∧ Fits (digestParts left [])
        ∧ Fits (digestParts right [])
        ∧ digest id left [] = digest id right []
        ∧ left.roster.skills.map ResolvedSkill.bindings
          ≠ right.roster.skills.map ResolvedSkill.bindings
        ∧ ¬(left.diagnostics.map Prod.snd).Perm (right.diagnostics.map Prod.snd)
        ∧ left.roster.advisory.map AdvisorySkill.record
          ≠ right.roster.advisory.map AdvisorySkill.record := by
  refine ⟨oneSkill "x" (some 1) [(1, .read)], oneSkill "y" none [],
    oneSkill_resolved (by decide) _ _, oneSkill_resolved (by decide) _ _,
    fits_oneSkill (by decide +kernel), fits_oneSkill (by decide +kernel), ?_, by decide +kernel,
    fun perm => absurd perm.length_eq (by decide), by decide +kernel⟩
  rw [digest, digest, digestParts_oneSkill (by decide +kernel),
    digestParts_oneSkill (by decide +kernel)]
  rfl

-- A skill in scope

def shadowedEntry (content : ContentHash) : SkillEntry :=
  let entry := sampleEntry "b" 2 content
  { entry with binding := { entry.binding with priority := some 1 } }

def twoSkills (content : ContentHash) (priority : Int)
    (diagnostics : List (Nat × ResolutionError))
    : Resolution :=
  let first := sampleEntry "a" 1 "x"
  let second := shadowedEntry content
  {
    roster :=
      {
        skills :=
          [
            {
              record := first.record
              bindings := [{ first.binding with priority := some priority }]
            },
            {
              record := { second.record with visibility := .shadowed "a" }
              bindings := [{ second.binding with visibility := .shadowed "a" }]
            }
          ]
        ids :=
          ((∅ : Std.TreeMap SkillId Position compare).insert "a" (0, 0)).insert "b" (1, 0)
        names :=
          (∅ : Std.TreeMap String (List Position) compare).insert "review" [(0, 0), (1, 0)]
        partialCoverage := true
      }
    diagnostics
    sources := []
  }

def twoEntries (content : ContentHash) (priority : Int) : List SkillEntry :=
  let first := sampleEntry "a" 1 "x"
  [{ first with binding := { first.binding with priority := some priority } },
    shadowedEntry content]

theorem sortEntries_two (priority : Int)
    : sortEntries (twoEntries content priority) = twoEntries content priority := by
  have inOrder : (compare "a" "b").isLE = true := by decide +kernel
  exact List.mergeSort_of_pairwise (List.pairwise_pair.mpr inOrder)

theorem twoSkills_resolved (hashed : content ≠ "-") {priority : Int}
    (done
      : resolve .default (fun _ => { cancelled := false, now := 0 }) (twoEntries content priority)
          true
        = .ok (twoSkills content priority diagnostics).roster)
    : Resolved (twoSkills content priority diagnostics).roster := by
  refine ⟨_, _, _, _, ?_, done⟩
  intro entry mem
  rcases List.mem_cons.mp mem with rfl | mem
  · exact ⟨rfl, (by decide : "x" ≠ "-")⟩
  · cases List.mem_singleton.mp mem
    exact ⟨rfl, hashed⟩

theorem digestParts_twoSkills {priority : Int} (unobserved : excludedCodes diagnostics = [])
    : digestParts (twoSkills content priority diagnostics) ["a"]
      = [
          utf8 revalidationVersion, [1], littleEndian 8 2, utf8 "a", utf8 "x", littleEndian 8 1,
          utf8 "a", utf8 "project", utf8 "review", utf8 "verified:1", [1, 1], utf8 "b", utf8 "-",
          littleEndian 8 1, utf8 "b", utf8 "project", utf8 "review", utf8 "shadowed:a", [1, 1]
        ] := by
  have codes : (sortCodes (excludedCodes (twoSkills content priority diagnostics).diagnostics)).map
      utf8 = [] := by
    change (sortCodes (excludedCodes diagnostics)).map utf8 = []
    rw [unobserved, sortCodes, List.mergeSort_nil, List.map_nil]
  have sorted : sortResolved (twoSkills content priority diagnostics).roster.skills
      = (twoSkills content priority diagnostics).roster.skills := by
    have inOrder : (compare "a" "b").isLE = true := by decide +kernel
    exact List.mergeSort_of_pairwise (List.pairwise_pair.mpr inOrder)
  rw [digestParts, codes, List.append_nil, sorted]
  simp only [twoSkills, List.flatMap_cons, skillParts, sortBindings, List.mergeSort_singleton]
  rfl

/-- Rosters of one digest answer alike, although the shadowing priority, a record that could not
be read and the content of the skill out of scope differ.
-/
theorem unchanged_of_digest_scoped
    : Unchanged (twoSkills "y" 2 [(1, .read)]) (twoSkills "z" 3 []) ["a"] ["a"] := by
  have fits {diagnostics : List (Nat × ResolutionError)} {content : ContentHash} {priority : Int}
      (unobserved : excludedCodes diagnostics = [])
      : Fits (digestParts (twoSkills content priority diagnostics) ["a"]) := by
    rw [digestParts_twoSkills unobserved, Fits]
    decide +kernel
  refine unchanged_of_digest Function.injective_id (twoSkills_resolved (by decide) ?_)
    (twoSkills_resolved (by decide) ?_) (fits (by decide +kernel)) (fits (by decide +kernel)) ?_
  · rw [resolve, sortEntries_two]
    rfl
  · rw [resolve, sortEntries_two]
    rfl
  · rw [digest, digest, digestParts_twoSkills (by decide +kernel),
      digestParts_twoSkills (by decide +kernel)]

end SkillRanker.Roster.Revalidation
