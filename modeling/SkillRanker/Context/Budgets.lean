import SkillRanker.Context.Disclosure

/-! The budgets of a payload: the scalars of the session state, and the window of messages. -/

namespace SkillRanker.Context

open SkillRanker.Library SkillRanker.Privacy

variable {scanner : Scanner} {readObject : ObjectReader} {options : RenderContextOptions}

theorem length_truncated_le {text result : List Char} {maxChars : Nat}
    (cut : truncated text maxChars = returned (.ok result))
    : result.length ≤ maxChars :=
  length_headTailTruncate_le (present_eq_returned.mp cut)

-- The session state

namespace SessionDraft

def kept (draft : SessionDraft) : Nat :=
  (draft.exclusions.map List.length).sum
    + (draft.references.map fun reference =>
        reference.name.length + reference.summary.length).sum

/-- What a draft keeps and what is left are the allowance. -/
def Accounts (allowance : Nat) (draft : SessionDraft) : Prop :=
  draft.kept + draft.remaining = allowance

end SessionDraft

variable {allowance : Nat} {draft next : SessionDraft}

theorem addExclusion_accounts {exclusion : List Char} (accounts : draft.Accounts allowance)
    (added : addExclusion scanner options draft exclusion = returned (.ok next))
    : next.Accounts allowance := by
  obtain ⟨field, _, added⟩ := bind_eq_returned.mp added
  obtain ⟨remaining, left, added⟩ := bind_eq_returned.mp added
  have left := require_eq_ok.mp (returned_inj.mp left)
  unfold checkedSub at left
  split at left
  next within =>
      cases left
      cases added
      unfold SessionDraft.Accounts SessionDraft.kept at accounts ⊢
      dsimp only
      rw [List.map_append, List.sum_append, List.map_singleton, List.sum_singleton]
      omega
  · cases left

theorem addSummary_accounts {name summary : List Char} (accounts : draft.Accounts allowance)
    (named : name.length ≤ draft.remaining)
    (added : addSummary scanner options draft name summary = returned (.ok next))
    : next.Accounts allowance := by
  obtain ⟨field, _, added⟩ := bind_eq_returned.mp added
  obtain ⟨text, cut, added⟩ := bind_eq_returned.mp added
  have short := length_truncated_le cut
  cases added
  unfold SessionDraft.Accounts SessionDraft.kept at accounts ⊢
  dsimp only
  rw [List.map_append, List.sum_append, List.map_singleton, List.sum_singleton]
  dsimp only
  omega

theorem addReference_accounts {reference : RenderedLoadedReference}
    (accounts : draft.Accounts allowance)
    (added : addReference scanner options draft reference = returned (.ok next))
    : next.Accounts allowance := by
  unfold addReference at added
  split at added
  · cases added
    exact accounts
  · obtain ⟨name, _, added⟩ := bind_eq_returned.mp added
    dsimp only at added
    split at added
    · cases added
      exact accounts
    next fits =>
        rw [not_or, Nat.not_lt] at fits
        refine addSummary_accounts ?_ ?_ added
        · exact accounts
        · exact fits.2

/-- A fold that succeeds keeps what each of its steps keeps, by induction on the items. -/
theorem returned_foldlM_keeps {Error α β : Type} {Keeps : α → Prop}
    {step : α → β → Panicking Error α} {items : List β}
    (kept : ∀ state item next, Keeps state → step state item = returned (.ok next) → Keeps next)
    {start last : α} (holds : Keeps start)
    (ran : items.foldlM step start = returned (.ok last))
    : Keeps last := by
  induction items generalizing start with
  | nil =>
      cases ran
      exact holds
  | cons item rest ih =>
      rw [List.foldlM_cons] at ran
      obtain ⟨next, stepped, ran⟩ := bind_eq_returned.mp ran
      exact ih (kept start item next holds stepped) ran

/-- The session state that is prepared is within its bound, and its receipt names its items. -/
theorem prepareSession_spec {prepared : RenderContextOptions} {receipt : CategoryReceipt}
    (ran : prepareSession scanner options = returned (.ok (prepared, receipt)))
    : prepared.loadedState.length + (prepared.explicitExclusions.map List.length).sum
        + (prepared.loadedReferences.map fun reference =>
            reference.name.length + reference.summary.length).sum ≤ sessionStateScalars
      ∧ receipt.category = .sessionState
      ∧ receipt.includedCount
          = prepared.loadedReferences.length + prepared.explicitExclusions.length
      ∧ prepared = { options with
          loadedReferences := prepared.loadedReferences
          loadedState := prepared.loadedState
          explicitExclusions := prepared.explicitExclusions
        } := by
  obtain ⟨_, _, ran⟩ := bind_eq_returned.mp ran
  obtain ⟨state, _, ran⟩ := bind_eq_returned.mp ran
  obtain ⟨remaining, left, ran⟩ := bind_eq_returned.mp ran
  obtain ⟨constrained, excluded, ran⟩ := bind_eq_returned.mp ran
  obtain ⟨draft, referred, done⟩ := bind_eq_returned.mp ran
  have left := require_eq_ok.mp (returned_inj.mp left)
  unfold checkedSub at left
  split at left
  next within =>
      cases left
      have start : SessionDraft.Accounts (sessionStateScalars - state.text.length)
          {
            remaining := sessionStateScalars - state.text.length
            exclusions := []
            references := []
            redactions := state.redactions
            truncations := 0
          } := Nat.zero_add _
      have afterExclusions :=
        returned_foldlM_keeps (fun _ _ _ => addExclusion_accounts) start excluded
      have accounts :=
        returned_foldlM_keeps (fun _ _ _ => addReference_accounts) afterExclusions referred
      obtain ⟨rfl, rfl⟩ := Prod.mk.inj (Except.ok.inj (returned_inj.mp done))
      refine ⟨?_, rfl, rfl, rfl⟩
      unfold SessionDraft.Accounts SessionDraft.kept at accounts
      dsimp only
      omega
  · cases left

-- The window of messages

inductive CutOf (message : RenderedMessage) : RenderedMessage → Prop
  | text {text short} {limit : Nat} (has : message.text = some text)
    (cut : headTailTruncate text limit = some short)
    : CutOf message { message with text := some short }
  | summary {summary short} {limit : Nat} (has : message.summary = some summary)
    (cut : headTailTruncate summary limit = some short)
    : CutOf message { message with summary := some short }

/-- The newest of some messages, of which the oldest may be cut where the budget does not suffice
for it.
-/
inductive NewestSuffix (budget : Nat) (rendered : List RenderedMessage)
    : List RenderedMessage → Prop
  | whole {older newer} (parts : rendered = older ++ newer) : NewestSuffix budget rendered newer
  | cut {older oldest newer short} (parts : rendered = older ++ oldest :: newer)
    (isCut : CutOf oldest short)
    (exceeds : budget < ((oldest :: newer).map RenderedMessage.scalars).sum)
    : NewestSuffix budget rendered (short :: newer)

namespace NewestSuffix

variable {budget : Nat} {rendered messages : List RenderedMessage}

section

variable (suffix : NewestSuffix budget rendered messages)
include suffix

/-- A newer message for which there is budget. -/
theorem snoc (message : RenderedMessage)
    : NewestSuffix (budget + message.scalars) (rendered ++ [message]) (messages ++ [message]) := by
  cases suffix with
  | @whole older newer parts =>
      have longer : rendered ++ [message] = older ++ (messages ++ [message]) := by
        rw [parts, List.append_assoc]
      exact .whole longer
  | @cut older oldest newer short parts isCut exceeds =>
      have longer : rendered ++ [message] = older ++ oldest :: (newer ++ [message]) := by
        rw [parts, List.append_assoc, List.cons_append]
      refine .cut longer isCut ?_
      · change _ < ((oldest :: newer ++ [message]).map RenderedMessage.scalars).sum
        rw [List.map_append, List.sum_append, List.map_singleton, List.sum_singleton]
        omega

/-- The newest of the messages behind some older ones. -/
theorem behind (older : List RenderedMessage)
    : NewestSuffix budget (older ++ rendered) messages := by
  cases suffix with
  | @whole before newer parts =>
      have more : older ++ rendered = (older ++ before) ++ messages := by
        rw [parts, List.append_assoc]
      exact .whole more
  | @cut before oldest newer short parts isCut exceeds =>
      have more : older ++ rendered = (older ++ before) ++ oldest :: newer := by
        rw [parts, List.append_assoc]
      exact .cut more isCut exceeds

theorem length_le
    : messages.length ≤ rendered.length := by
  cases suffix with
  | whole parts =>
      rw [parts, List.length_append]
      omega
  | cut parts _ _ =>
      rw [parts, List.length_append, List.length_cons, List.length_cons]
      omega

end

theorem isTool_of_cutOf {message short : RenderedMessage} (cut : CutOf message short)
    : short.isTool = message.isTool := by
  cases cut <;> rfl

/-- No more messages of a kind are left than there were. -/
theorem countP_le (suffix : NewestSuffix budget rendered messages)
    {counts : RenderedMessage → Bool}
    (reads : ∀ message short, CutOf message short → counts short = counts message)
    : messages.countP counts ≤ rendered.countP counts := by
  cases suffix with
  | whole parts =>
      rw [parts, List.countP_append]
      omega
  | cut parts isCut _ =>
      rw [parts, List.countP_append, List.countP_cons, List.countP_cons, reads _ _ isCut]
      omega

end NewestSuffix

def RenderedMessage.Single (message : RenderedMessage) : Prop :=
  message.text = none ∨ message.summary = none

theorem fillCut_spec {budget : Nat} {message : RenderedMessage} {filled : Filled}
    (single : message.Single) (exceeds : budget < message.scalars)
    (done : fillCut budget message = returned (.ok filled))
    : (filled.messages.map RenderedMessage.scalars).sum ≤ budget
      ∧ NewestSuffix budget [message] filled.messages := by
  have none : NewestSuffix budget [message] [] := .whole (List.append_nil [message]).symm
  unfold fillCut at done
  split at done
  · cases done
    exact ⟨Nat.zero_le _, none⟩
  next room =>
      split at done
      next text _ has =>
          obtain ⟨short, cut, done⟩ := bind_eq_returned.mp done
          have within := length_truncated_le cut
          cases done
          refine ⟨?_, .cut (List.nil_append [message]).symm (.text has (present_eq_returned.mp cut)) ?_⟩
          · have noSummary : message.summary = Option.none := by
              rcases single with noText | noSummary
              · rw [has] at noText
                cases noText
              · exact noSummary
            unfold RenderedMessage.overhead at room within
            simp only [List.map_singleton, List.sum_singleton,
              RenderedMessage.scalars, RenderedMessage.overhead, noSummary, Option.elim_some,
              Option.elim_none]
            omega
          · simpa using exceeds
      next summary noText has =>
          obtain ⟨short, cut, done⟩ := bind_eq_returned.mp done
          have within := length_truncated_le cut
          cases done
          refine ⟨?_, .cut (List.nil_append [message]).symm (.summary has (present_eq_returned.mp cut)) ?_⟩
          · unfold RenderedMessage.overhead at room within
            simp only [List.map_singleton, List.sum_singleton,
              RenderedMessage.scalars, RenderedMessage.overhead, noText, Option.elim_some,
              Option.elim_none]
            omega
          · simpa using exceeds
      · cases done
        exact ⟨Nat.zero_le _, none⟩

/-- The messages that fill a budget are the newest ones, by induction on them. -/
theorem fill_spec {budget : Nat} {newestFirst : List RenderedMessage} {filled : Filled}
    (single : ∀ message ∈ newestFirst, message.Single)
    (done : fill budget newestFirst = returned (.ok filled))
    : (filled.messages.map RenderedMessage.scalars).sum ≤ budget
      ∧ NewestSuffix budget newestFirst.reverse filled.messages := by
  induction newestFirst generalizing budget filled with
  | nil =>
      cases done
      exact ⟨Nat.zero_le _, .whole (List.nil_append []).symm⟩
  | cons message older ih =>
      have first := single message List.mem_cons_self
      rw [fill] at done
      rw [List.reverse_cons]
      split at done
      next fits =>
          obtain ⟨before, filledBefore, done⟩ := bind_eq_returned.mp done
          obtain ⟨within, suffix⟩ :=
            ih (fun other mem => single other (List.mem_cons_of_mem _ mem)) filledBefore
          cases done
          refine ⟨?_, ?_⟩
          · rw [List.map_append, List.sum_append, List.map_singleton, List.sum_singleton]
            omega
          · have more := suffix.snoc message
            rwa [Nat.sub_add_cancel fits] at more
      next exceeds =>
          obtain ⟨within, suffix⟩ := fillCut_spec first (Nat.lt_of_not_le exceeds) done
          exact ⟨within, suffix.behind older.reverse⟩

end SkillRanker.Context
