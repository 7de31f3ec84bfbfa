import SkillRanker.Files.AuthorizedRead

/-! Authorized reads stay under their roots: the walk goes through directories of the roots
only, and opens the object that its path leads to.
-/

namespace SkillRanker.Files

open SkillRanker.Library

variable {system : FileSystem} {roots : List (AuthorizedRoot system)}
variable {name : EntryName} {resolved : Resolved}

-- Roots

/-- What is left behind steps continues them. -/
theorem stripSteps_eq {path base rest : List PathStep} (left : stripSteps path base = some rest)
    : path = base ++ rest := by
  induction base generalizing path with
  | nil =>
      cases path <;> · rw [stripSteps] at left; cases left; rfl
  | cons other base ih =>
      cases path with
      | nil => cases left
      | cons first path =>
          rw [stripSteps] at left
          split at left
          next same => rw [ih left, same, List.cons_append]
          · cases left

def Under (roots : List (AuthorizedRoot system)) (absolute : List UInt8)
    (located : Nat × List PathStep) : Prop :=
  isAbsolutePath absolute = true
  ∧ ∃ base,
      roots[located.1]? = some base
      ∧ looseSteps absolute = looseSteps base.absolute ++ located.2

/-- A path is located under a root that it is under, by induction on the roots. -/
theorem under_of_locate {absolute : List UInt8} {located : Nat × List PathStep}
    (found : locate roots absolute = some located)
    : Under roots absolute located := by
  have under (indices : List Nat) (best : Option (Nat × List PathStep))
      (known : ∀ located, best = some located → Under roots absolute located)
      : ∀ located, indices.foldl (better roots absolute) best = some located
          → Under roots absolute located := by
    induction indices generalizing best with
    | nil => exact known
    | cons index rest ih =>
        refine ih _ (fun located found => ?_)
        simp only [better] at found
        split at found
        · exact known located found
        next root rest stripped =>
          split at found
          · cases found
            obtain ⟨base, here, left⟩ := Option.bind_eq_some_iff.mp stripped
            obtain ⟨_, split, same⟩ := Option.map_eq_some_iff.mp left
            cases same
            rw [AuthorizedRoot.strip] at split
            split at split
            next absolute => exact ⟨absolute, _, here, stripSteps_eq split⟩
            · cases split
          · exact known located found
  exact under _ none nofun located found

-- The invariant

/-- The walk stands under a root: its stack holds the directories on the way of its names. -/
structure Anchored (roots : List (AuthorizedRoot system)) (walk : Walk)
    (base : AuthorizedRoot system) : Prop where
  root : roots[walk.root]? = some base
  stack : walk.stack = walk.names.inits.map (base.directory ++ ·)
  directories
    : ∀ names, names <+: walk.names → system.node (base.directory ++ names) = some .directory
  hops : walk.hops ≤ maxSymlinkHops

theorem Anchored.top {walk : Walk} {base : AuthorizedRoot system}
    (anchored : Anchored roots walk base)
    : walk.top = .ok (base.directory ++ walk.names) := by
  rw [Walk.top, anchored.stack]
  rcases List.eq_nil_or_concat' walk.names with none | ⟨names, last, more⟩
  · simp [none, require]
  · simp [more, require]

theorem anchored_new {root : Nat} {walk : Walk} (started : Walk.new roots root = .ok walk)
    : ∃ base, roots[root]? = some base ∧ walk.names = [] ∧ Anchored roots walk base := by
  simp only [Walk.new, bind_eq_ok, require_eq_ok, pure_eq_ok] at started
  obtain ⟨base, here, rfl⟩ := started
  refine ⟨base, here, rfl, here, by simp, ?_, Nat.zero_le _⟩
  intro names none
  rw [List.prefix_nil.mp none, List.append_nil]
  exact base.isDirectory

section Turns

variable {walk next : Walk} {base : AuthorizedRoot system} {want : Want} {step : PathStep}
  {rest queue : List PathStep}

variable (anchored : Anchored roots walk base)
include anchored

/-- A step up leaves the last directory. -/
theorem Anchored.up (below : walk.names ≠ [])
    : Anchored roots
        { walk with stack := walk.stack.dropLast, names := walk.names.dropLast } base := by
  obtain ⟨names, last, more⟩ := List.eq_nil_or_concat' walk.names |>.resolve_left below
  refine ⟨anchored.root, ?_, ?_, anchored.hops⟩
  · simp [anchored.stack, more]
  · intro upper within
    exact anchored.directories upper (within.trans (List.dropLast_prefix _))

/-- A step into a directory puts it on the stack. -/
theorem Anchored.down
    (here : system.node (base.directory ++ walk.names ++ [name]) = some .directory)
    : Anchored roots
        {
          walk with
          stack := walk.stack ++ [base.directory ++ walk.names ++ [name]]
          names := walk.names ++ [name]
        }
        base := by
  refine ⟨anchored.root, ?_, ?_, anchored.hops⟩
  · simp [anchored.stack]
  · intro names within
    rcases List.prefix_concat_iff.mp within with rfl | upper
    · rw [← List.append_assoc]
      exact here
    · exact anchored.directories names upper

omit anchored in
theorem openat_eq_ok {top object : Location} {directory : Bool}
    (opened : openat system top name directory = .ok object)
    : object = top ++ [name]
      ∧ (system.node object = some .directory
        ∨ directory = false ∧ ∃ contents, system.node object = some (.file contents)) := by
  simp only [openat] at opened
  split at opened
  · cases opened
  · cases opened
  next contents here =>
    cases directory with
    | true => cases opened
    | false =>
        simp only [Bool.false_eq_true, if_false] at opened
        split at opened
        · cases opened
        · cases opened
          exact ⟨rfl, .inr ⟨rfl, contents, here⟩⟩
  next here =>
    split at opened
    · cases opened
    · cases opened
      exact ⟨rfl, .inl here⟩

/-- A link that is followed: the walk stands under a root again, and whatever the rest leads to
from there, it leads to through the link.
-/
theorem Anchored.followed {target : List PathStep}
    (done : walk.follow roots name = .ok (next, target))
    : ∃ anchor,
        Anchored roots next anchor
        ∧ ∀ object,
            Resolves system.toFileTree looseSteps (anchor.directory ++ next.names)
              (target ++ rest) object
            → Resolves system.toFileTree looseSteps (base.directory ++ walk.names)
                (.into name :: rest) object := by
  simp only [Walk.follow, bind_eq_ok, ensure_eq_ok, anchored.top, Except.ok.injEq,
    exists_eq_left', mapError_eq_ok] at done
  obtain ⟨_, bounded, text, read, _, _, done⟩ := done
  have here : system.node (base.directory ++ walk.names ++ [name]) = some (.link text) := by
    simp only [readlinkat] at read
    split at read
    next target there =>
      split at read
      · cases read
      · cases read
        exact there
    · cases read
  split at done
  next absolute =>
    simp only [bind_eq_ok, require_eq_ok, pure_eq_ok] at done
    obtain ⟨located, found, anchor, isRoot, same⟩ := done
    cases same
    obtain ⟨_, again, known, steps⟩ := under_of_locate found
    obtain rfl := Option.some.inj (known.symm.trans isRoot)
    refine ⟨again, ⟨isRoot, by simp, ?_, bounded⟩, ?_⟩
    · intro names none
      rw [List.prefix_nil.mp none, List.append_nil]
      exact again.isDirectory
    · intro object onward
      rw [List.append_nil] at onward
      refine .link here ?_
      rw [if_pos absolute, steps, List.append_assoc]
      have reached := again.resolves.loose
      rw [looseSteps_eq] at reached
      exact reached.append again.isDirectory onward
  next relative =>
    cases done
    refine ⟨base, ⟨anchored.root, anchored.stack, anchored.directories, bounded⟩, ?_⟩
    intro object onward
    refine .link here ?_
    rwa [if_neg relative]

/-- A turn keeps the walk under a root, and what the rest leads to from there, the steps lead to.
-/
theorem Anchored.turned (turned : walk.turn roots want step rest = .ok (.onward next queue))
    : ∃ anchor,
        Anchored roots next anchor
        ∧ ∀ object,
            Resolves system.toFileTree looseSteps (anchor.directory ++ next.names) queue object
            → Resolves system.toFileTree looseSteps (base.directory ++ walk.names)
                (step :: rest) object := by
  unfold Walk.turn at turned
  cases step with
  | current =>
      cases turned
      exact ⟨base, anchored, fun _ onward => .current onward⟩
  | parent =>
      simp only [bind_eq_ok, ensure_eq_ok, pure_eq_ok] at turned
      obtain ⟨_, below, same⟩ := turned
      cases same
      refine ⟨base, anchored.up below, fun object onward => .parent ?_⟩
      rwa [List.dropLast_append_of_ne_nil below]
  | into name =>
      simp only [bind_eq_ok, anchored.top, Except.ok.injEq, exists_eq_left'] at turned
      split at turned
      next object opened =>
        split at turned
        · simp only [bind_eq_ok, ensure_eq_ok, pure_eq_ok, reduceCtorEq, and_false,
            exists_false] at turned
        next more =>
          cases turned
          obtain ⟨rfl, here | ⟨last, _⟩⟩ := openat_eq_ok opened
          · refine ⟨base, anchored.down here, fun object onward => .directory here ?_⟩
            rwa [← List.append_assoc] at onward
          · exact absurd last (by simp [more])
      next errno refused =>
        split at turned
        · simp only [bind_eq_ok, pure_eq_ok] at turned
          obtain ⟨⟨followed, target⟩, done, same⟩ := turned
          cases same
          exact anchored.followed done
        split at turned <;> cases turned

/-- The turn that finds an object opens the last component under the root of the walk. -/
theorem Anchored.found (turned : walk.turn roots want step rest = .ok (.found resolved))
    : rest = []
      ∧ ∃ name,
          step = .into name
          ∧ resolved.object = base.directory ++ walk.names ++ [name]
          ∧ resolved.absolute = walk.absolute roots name
          ∧ (system.node resolved.object = some .directory
            ∨ ∃ contents, system.node resolved.object = some (.file contents))
          ∧ ∀ node, system.node resolved.object = some node → want.accepts (kindOf node) = true := by
  unfold Walk.turn at turned
  cases step with
  | current => cases turned
  | parent =>
      simp only [bind_eq_ok, ensure_eq_ok, pure_eq_ok, reduceCtorEq, and_false,
        exists_false] at turned
  | into name =>
      simp only [bind_eq_ok, anchored.top, Except.ok.injEq, exists_eq_left'] at turned
      split at turned
      next object opened =>
        split at turned
        next last =>
          simp only [bind_eq_ok, ensure_eq_ok, pure_eq_ok] at turned
          obtain ⟨_, accepted, same⟩ := turned
          cases same
          obtain ⟨rfl, here⟩ := openat_eq_ok opened
          refine ⟨List.isEmpty_iff.mp last, name, rfl, rfl, rfl, here.imp_right And.right, ?_⟩
          intro node known
          rwa [known] at accepted
        · cases turned
      next errno refused =>
        split at turned
        · simp only [bind_eq_ok, pure_eq_ok, reduceCtorEq, and_false, exists_false] at turned
        split at turned <;> cases turned

end Turns

-- Runs

section Runs

variable {walk : Walk} {base : AuthorizedRoot system} {want : Want} {queue : List PathStep}

inductive Turns (roots : List (AuthorizedRoot system)) (want : Want)
    (start : Walk × List PathStep)
    : Nat → Walk → List PathStep → Prop
  | start : Turns roots want start 0 start.1 start.2
  | turn {count : Nat} {walk next : Walk} {step : PathStep} {rest queue : List PathStep}
      (before : Turns roots want start count walk (step :: rest))
      (turned : walk.turn roots want step rest = .ok (.onward next queue))
      : Turns roots want start (count + 1) next queue

variable {count : Nat} {left : List PathStep}

/-- Every walk on the way stands under a root, by induction on the turns. -/
theorem Anchored.turns (anchored : Anchored roots walk base) {reached : Walk}
    (turns : Turns roots want (walk, queue) count reached left)
    : ∃ anchor, Anchored roots reached anchor := by
  induction turns with
  | start => exact ⟨base, anchored⟩
  | turn _ turned ih =>
      obtain ⟨anchor, stands⟩ := ih
      obtain ⟨next, after, _⟩ := stands.turned turned
      exact ⟨next, after⟩

variable {rest : List PathStep}

/-- The names of a walk go through directories to what is behind them. -/
theorem resolves_through {readTarget : List UInt8 → List PathStep} {place object : Location}
    {names : List EntryName}
    (directories : ∀ upper, upper <+: names → system.node (place ++ upper) = some .directory)
    (onward : Resolves system.toFileTree readTarget (place ++ names) rest object)
    : Resolves system.toFileTree readTarget place (names.map .into ++ rest) object := by
  induction names generalizing place with
  | nil => simpa using onward
  | cons name names ih =>
      have here := directories [name] (List.cons_prefix_cons.mpr ⟨rfl, List.nil_prefix⟩)
      refine .directory here (ih ?_ ?_)
      · intro upper within
        rw [List.append_assoc, List.singleton_append]
        exact directories (name :: upper) (List.cons_prefix_cons.mpr ⟨rfl, within⟩)
      · rwa [List.append_assoc, List.singleton_append]

/-- The path of an object under a root leads to it. -/
theorem Anchored.absolute_resolves (anchored : Anchored roots walk base)
    (here
      : system.node (base.directory ++ walk.names ++ [name]) = some .directory
        ∨ ∃ contents,
            system.node (base.directory ++ walk.names ++ [name]) = some (.file contents))
    : Resolves system.toFileTree pathSteps [] (pathSteps (walk.absolute roots name))
        (base.directory ++ walk.names ++ [name]) := by
  have joined (names : List EntryName) (path : List UInt8)
      : partSteps (names.foldl joinName path) = partSteps path ++ names.map .into := by
    induction names generalizing path with
    | nil => simp
    | cons first rest ih => rw [List.foldl_cons, ih, partSteps_join]; simp
  have last
      : Resolves system.toFileTree pathSteps (base.directory ++ walk.names) [.into name]
          (base.directory ++ walk.names ++ [name]) := by
    rcases here with directory | ⟨contents, file⟩
    · exact .directory directory (.done _)
    · exact .file file
  have behind := resolves_through anchored.directories last
  have reached : Resolves system.toFileTree pathSteps [] (partSteps base.absolute) base.directory := by
    have strict := base.resolves
    unfold pathSteps at strict
    split at strict
    · exact strict.of_current
    · rwa [List.append_nil] at strict
  rw [Walk.absolute, anchored.root, Option.map_some, Option.getD_some, pathSteps_joinName, joined,
    List.append_assoc]
  exact reached.append base.isDirectory behind

/-- What a walk finds: an object under a root that its components lead to, of the wanted kind,
with a path that leads to it.
-/
structure Finds (roots : List (AuthorizedRoot system)) (want : Want) (place : Location)
    (steps : List PathStep) (resolved : Resolved) : Prop where
  inside : ∃ base ∈ roots, base.directory <+: resolved.object
  reached : Resolves system.toFileTree looseSteps place steps resolved.object
  wanted : ∃ node, system.node resolved.object = some node ∧ want.accepts (kindOf node) = true
  named : Resolves system.toFileTree pathSteps [] (pathSteps resolved.absolute) resolved.object

variable {start : Walk × List PathStep}

theorem Turns.after {next : Walk} {step : PathStep} {ahead : List PathStep}
    (first : start.1.turn roots want step rest = .ok (.onward next ahead))
    (is : start.2 = step :: rest) {last : Walk}
    (turns : Turns roots want (next, ahead) count last left)
    : Turns roots want start (count + 1) last left := by
  induction turns with
  | start =>
      refine .turn ?_ first
      rw [← is]
      exact .start
  | turn _ turned ih => exact .turn ih turned

/-- A walk that succeeds finds its object within its bound of turns, by induction on the bound.
-/
theorem Anchored.resolve (anchored : Anchored roots walk base) {bound : Nat}
    (done : walk.resolve roots want bound queue = .ok resolved)
    : Finds roots want (base.directory ++ walk.names) queue resolved
      ∧ ∃ count < bound, ∃ last step,
          Turns roots want (walk, queue) count last [step]
          ∧ last.turn roots want step [] = .ok (.found resolved) := by
  induction bound generalizing walk base queue with
  | zero =>
      cases queue with
      | nil => cases done
      | cons => cases done
  | succ bound ih =>
      cases queue with
      | nil => cases done
      | cons step rest =>
          simp only [Walk.resolve, bind_eq_ok] at done
          obtain ⟨turn, turned, done⟩ := done
          cases turn with
          | found found =>
              cases done
              obtain ⟨rfl, name, rfl, object, path, here, accepted⟩ := anchored.found turned
              rw [object] at here
              refine ⟨⟨?_, ?_, ?_, ?_⟩, 0, Nat.succ_pos _, walk, .into name, .start, turned⟩
              · refine ⟨base, List.mem_of_getElem? anchored.root, ?_⟩
                rw [object, List.append_assoc]
                exact List.prefix_append _ _
              · rw [object]
                rcases here with directory | ⟨contents, file⟩
                · exact .directory directory (.done _)
                · exact .file file
              · rcases here with directory | ⟨contents, file⟩
                · exact ⟨_, object ▸ directory, accepted _ (object ▸ directory)⟩
                · exact ⟨_, object ▸ file, accepted _ (object ▸ file)⟩
              · rw [path, object]
                exact anchored.absolute_resolves here
          | onward next ahead =>
              obtain ⟨anchor, stands, leads⟩ := anchored.turned turned
              obtain ⟨finds, count, less, last, step, turns, found⟩ := ih stands done
              exact ⟨⟨finds.inside, leads _ finds.reached, finds.wanted, finds.named⟩,
                count + 1, Nat.succ_lt_succ less, last, step, turns.after turned rfl, found⟩

/-- A walk that has made all its turns with components left stops. -/
theorem Turns.exhausted {last : Walk} {step : PathStep}
    (turns : Turns roots want start count last (step :: rest))
    : start.1.resolve roots want count start.2 = .error .tooManyComponents := by
  have onward (count : Nat) (start : Walk × List PathStep) (last : Walk) (left : List PathStep)
      (turns : Turns roots want start count last left) (more : Nat)
      : start.1.resolve roots want (count + more) start.2
        = last.resolve roots want more left := by
    induction turns generalizing more with
    | start => rw [Nat.zero_add]
    | @turn count _ _ _ _ _ _ turned ih =>
        rw [Nat.add_assoc, ih, Nat.add_comm 1 more, Walk.resolve, turned]
        rfl
  have stopped := onward count start last (step :: rest) turns 0
  rw [Nat.add_zero] at stopped
  rw [stopped, Walk.resolve]

end Runs

-- Reads

section Reads

variable (roots)

/-- A walk within its bound of links, whose directories are all under roots. -/
structure Confined (walk : Walk) : Prop where
  hops : walk.hops ≤ maxSymlinkHops
  directories
    : ∀ directory ∈ walk.stack,
        system.node directory = some .directory ∧ ∃ base ∈ roots, base.directory <+: directory

/-- What is opened for a request whose steps start at a place: a regular file under a root, which
the steps lead to with the dots and separators behind the names of files left out, and which
they lead to as they are if they lead to anything. Its path leads to it.
-/
structure Opens (place : Location) (request : List UInt8) (resolved : Resolved) : Prop where
  inside : ∃ base ∈ roots, base.directory <+: resolved.object
  regular
    : ∃ contents,
        system.node resolved.object = some (.file contents) ∧ contents.kind = .regular
  reached : Resolves system.toFileTree looseSteps place (looseSteps request) resolved.object
  same
    : ∀ object,
        Resolves system.toFileTree pathSteps place (pathSteps request) object
        → object = resolved.object
  named : Resolves system.toFileTree pathSteps [] (pathSteps resolved.absolute) resolved.object

variable {roots}

theorem Anchored.confined {walk : Walk} {base : AuthorizedRoot system}
    (anchored : Anchored roots walk base)
    : Confined roots walk := by
  refine ⟨anchored.hops, fun directory member => ?_⟩
  rw [anchored.stack] at member
  obtain ⟨names, upper, rfl⟩ := List.mem_map.mp member
  exact ⟨anchored.directories names ((List.mem_inits _ _).mp upper), base,
    List.mem_of_getElem? anchored.root, List.prefix_append _ _⟩

theorem Finds.opens {place : Location} {request : List UInt8}
    (finds : Finds roots .file place (looseSteps request) resolved)
    : Opens roots place request resolved := by
  refine ⟨finds.inside, ?_, finds.reached, ?_, finds.named⟩
  · obtain ⟨node, here, accepted⟩ := finds.wanted
    cases node with
    | file contents => exact ⟨contents, here, of_decide_eq_true accepted⟩
    | directory => cases accepted
    | link => cases accepted
  · intro object strict
    have loose := strict.loose
    rw [looseSteps_eq] at loose
    exact loose.unique finds.reached

/-- A request under a root. -/
theorem opens_of_openBounded {index : Nat} {relative : List UInt8}
    (opened : openBounded roots index relative = .ok resolved)
    : ∃ base, roots[index]? = some base ∧ Opens roots base.directory relative resolved := by
  simp only [openBounded, bind_eq_ok, ensure_eq_ok] at opened
  obtain ⟨components, split, _, _, walk, started, done⟩ := opened
  obtain ⟨base, here, names, anchored⟩ := anchored_new started
  have finds := (anchored.resolve done).1
  rw [names, List.append_nil] at finds
  rw [splitComponents] at split
  split at split
  · cases split
  · cases split
    exact ⟨base, here, finds.opens⟩

theorem opens_of_openAbsolute {existing : Bool} {absolute : List UInt8}
    (opened : openAbsolute roots existing absolute = .ok resolved)
    : Opens roots [] absolute resolved := by
  simp only [openAbsolute, bind_eq_ok, ensure_eq_ok, require_eq_ok] at opened
  obtain ⟨_, _, located, found, _, _, walk, started, done⟩ := opened
  obtain ⟨base, here, names, anchored⟩ := anchored_new started
  have flagged
      : Anchored roots { walk with requireExistingLinkTargets := existing } base :=
    ⟨anchored.root, anchored.stack, anchored.directories, anchored.hops⟩
  have finds := (flagged.resolve done).1
  obtain ⟨_, again, known, steps⟩ := under_of_locate found
  obtain rfl := Option.some.inj (known.symm.trans here)
  have reached := again.resolves.loose
  rw [looseSteps_eq] at reached
  rw [names, List.append_nil] at finds
  refine Finds.opens ⟨finds.inside, ?_, finds.wanted, finds.named⟩
  rw [steps]
  exact reached.append again.isDirectory finds.reached

theorem bytes_of_readOpened {limit : Nat} {bytes : List UInt8}
    (read : readOpened system resolved limit = .ok bytes) {contents : Contents}
    (here : system.node resolved.object = some (.file contents))
    : bytes = contents.bytes := by
  simp only [readOpened, here, bind_eq_ok, ensure_eq_ok, pure_eq_ok, List.length_take] at read
  obtain ⟨_, _, _, short, rfl⟩ := read
  exact List.take_of_length_le (by omega)

def FileRead.Whole (system : FileSystem) (read : FileRead) : Prop :=
  ∃ contents,
    system.node read.resolved.object = some (.file contents) ∧ read.bytes = contents.bytes

/-- Authorized reads are confined. Whatever is opened for a request under a root, or for an
absolute one, is a regular file under a root that the request leads to; a read returns the
bytes of that file. Every walk stays within its bounds, in directories under roots.
-/
theorem reads_confined (roots : List (AuthorizedRoot system))
    : (∀ index relative resolved,
        openBounded roots index relative = .ok resolved
        → ∃ base,
            roots[index]? = some base ∧ Opens roots base.directory relative resolved)
      ∧ (∀ existing absolute resolved,
          openAbsolute roots existing absolute = .ok resolved
          → Opens roots [] absolute resolved)
      ∧ (∀ index relative limit read,
          readBounded roots index relative limit = .ok read
          → openBounded roots index relative = .ok read.resolved ∧ read.Whole system)
      ∧ (∀ absolute limit read,
          readAbsolute roots absolute limit = .ok read
          → openAbsolute roots false absolute = .ok read.resolved ∧ read.Whole system)
      ∧ ∀ index start existing want queue,
          Walk.new roots index = .ok start
          → (∀ count walk left,
              Turns roots want ({ start with requireExistingLinkTargets := existing }, queue) count
                walk left
              → Confined roots walk)
            ∧ ∀ walk step rest,
                Turns roots want ({ start with requireExistingLinkTargets := existing }, queue)
                  maxResolutionSteps walk (step :: rest)
                → { start with requireExistingLinkTargets := existing }.resolve roots want
                    maxResolutionSteps queue
                  = .error .tooManyComponents := by
  refine ⟨fun _ _ _ => opens_of_openBounded, fun _ _ _ => opens_of_openAbsolute, ?_, ?_, ?_⟩
  · intro index relative limit read done
    simp only [readBounded, bind_eq_ok, pure_eq_ok] at done
    obtain ⟨resolved, opened, bytes, taken, rfl⟩ := done
    obtain ⟨_, _, opens⟩ := opens_of_openBounded opened
    obtain ⟨contents, here, _⟩ := opens.regular
    exact ⟨opened, contents, here, bytes_of_readOpened taken here⟩
  · intro absolute limit read done
    simp only [readAbsolute, bind_eq_ok, pure_eq_ok] at done
    obtain ⟨resolved, opened, bytes, taken, rfl⟩ := done
    obtain ⟨contents, here, _⟩ := (opens_of_openAbsolute opened).regular
    exact ⟨opened, contents, here, bytes_of_readOpened taken here⟩
  · intro index start existing want queue started
    obtain ⟨base, _, _, anchored⟩ := anchored_new started
    have flagged
        : Anchored roots { start with requireExistingLinkTargets := existing } base :=
      ⟨anchored.root, anchored.stack, anchored.directories, anchored.hops⟩
    refine ⟨fun count walk left turns => ?_, fun walk step rest turns => turns.exhausted⟩
    obtain ⟨_, stands⟩ := flagged.turns turns
    exact stands.confined

end Reads

-- Cases

def sampleName : EntryName := { bytes := [102], named := by decide }

def oneFile : FileSystem where
  node
    | [] => some .directory
    | [name] => if name = sampleName then some (.file { kind := .regular, bytes := [1] }) else none
    | _ => none
  root := rfl
  held place name known := by
    rcases place with _ | ⟨first, rest⟩
    · rfl
    · cases rest <;> exact absurd rfl known
  refused _ := none
  linkAsDirectory := .notDirectory

def wholeTree : AuthorizedRoot oneFile where
  directory := []
  absolute := [47]
  isAbsolute := rfl
  isDirectory := rfl
  resolves := by
    have steps : pathSteps [47] = [.current] := by decide +kernel
    rw [steps]
    exact .current (.done [])

def firstName : EntryName := { bytes := [97], named := by decide }

def secondName : EntryName := { bytes := [98], named := by decide }

/-- A link in the first of two directories names the file in the second by its absolute path. -/
def linkedNodes : List (Location × Node Contents) :=
  [
    ([], .directory), ([firstName], .directory), ([secondName], .directory),
    ([firstName, sampleName], .link [47, 98, 47, 102]),
    ([secondName, sampleName], .file { kind := .regular, bytes := [1] })
  ]

def linkedTree : FileSystem where
  node place := linkedNodes.lookup place
  root := by decide
  held place name known := by
    obtain ⟨node, found⟩ := Option.ne_none_iff_exists'.mp known
    obtain ⟨_, _, split, _⟩ := List.lookup_eq_some_iff.mp found
    have listed : (place ++ [name], node) ∈ linkedNodes := by
      rw [split]
      exact List.mem_append_right _ List.mem_cons_self
    have above : place = (place ++ [name]).dropLast := List.dropLast_concat.symm
    simp only [linkedNodes, List.mem_cons, Prod.mk.injEq, List.not_mem_nil, or_false] at listed
    rw [above]
    rcases listed with ⟨none, _⟩ | ⟨is, _⟩ | ⟨is, _⟩ | ⟨is, _⟩ | ⟨is, _⟩
    · exact absurd none (List.append_ne_nil_of_right_ne_nil _ (List.cons_ne_nil _ _))
    all_goals
      rw [is]
      decide
  refused _ := none
  linkAsDirectory := .notDirectory

def linkedRoot (name : EntryName) (isDirectory : linkedTree.node [name] = some .directory)
    : AuthorizedRoot linkedTree where
  directory := [name]
  absolute := joinName [47] name
  isAbsolute := rfl
  isDirectory := isDirectory
  resolves := by
    rw [pathSteps_joinName]
    exact .directory isDirectory (.done _)

def linkedRoots : List (AuthorizedRoot linkedTree) :=
  [linkedRoot firstName (by decide), linkedRoot secondName (by decide)]

/-- A file is read through a link that leads from one root into another, and by its own path. -/
theorem linked_confined
    : Opens linkedRoots [firstName] [102]
          { object := [secondName, sampleName], absolute := [47, 98, 47, 102] }
        ∧ Opens linkedRoots [] [47, 97, 47, 102]
            { object := [secondName, sampleName], absolute := [47, 98, 47, 102] }
        ∧ ∃ read, readBounded linkedRoots 0 [102] 10 = .ok read ∧ read.Whole linkedTree := by
  obtain ⟨under, anywhere, bounded, _⟩ := reads_confined linkedRoots
  refine ⟨?_, anywhere true _ _ (by decide +kernel), ?_⟩
  · obtain ⟨base, here, opens⟩ := under 0 [102]
      { object := [secondName, sampleName], absolute := [47, 98, 47, 102] } (by decide +kernel)
    cases here
    exact opens
  · refine ⟨⟨[1], { object := [secondName, sampleName], absolute := [47, 98, 47, 102] }⟩,
      by decide +kernel, ?_⟩
    exact (bounded 0 [102] 10 _ (by decide +kernel)).2

/-- A path with a separator behind the name of a file leads to nothing, but the file is read. -/
theorem separator_behind_file
    : ∃ read,
        readBounded [wholeTree] 0 [102, 47] 10 = .ok read
        ∧ ∀ object,
            ¬ Resolves oneFile.toFileTree pathSteps wholeTree.directory (pathSteps [102, 47])
              object := by
  refine ⟨{ bytes := [1], resolved := { object := [sampleName], absolute := [47, 102] } },
    by decide +kernel, ?_⟩
  intro object leads
  have steps : pathSteps [102, 47] = [.into sampleName, .current] := by decide +kernel
  rw [steps] at leads
  cases leads with
  | directory here => exact absurd here (by decide +kernel)
  | link here =>
      have file : oneFile.node [sampleName] = some (.file { kind := .regular, bytes := [1] }) := rfl
      cases file.symm.trans here

end SkillRanker.Files
