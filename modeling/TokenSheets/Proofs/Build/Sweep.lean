import Mathlib.Data.List.TakeWhile
import TokenSheets.Build.Platform
import TokenSheets.Proofs.Store.Files

/-!
# Cleaning a directory

A round of cleaning removes files by name, looks into their directory and removes it if it is empty.
Cleaning takes one round or several in the same directory. It gets through if the directory can be
walked to, or is missing; then it stops at the first name where a directory stands, and otherwise
every name is gone in the end, and the directory if nothing else was in it.

* `Store.Swept`: what is left of a directory when some names were cleaned;
* `Store.Swept.trans`, `Store.Swept.unchanged`: rounds add up, and a swept directory stays as it is;
* `InPlace`: names that can be looked up in the directory;
* `performAll_round`, `performAll_rounds`: what one round comes to, and several.
-/

namespace TokenSheets

open Store

/-- **One round of cleaning**: files of a directory, and the directory once it is empty. -/
def sweepSteps (directory : Path) (names : List String) : List Step :=
  names.map (fun name => .removeFile (directory.join name)) ++
    [.listDirectory directory, .removeListed directory]

theorem Platform.cleanSteps_eq (platform : Platform) :
    platform.cleanSteps =
      sweepSteps platform.buildPath (platform.files.map FileSpec.destination) := by
  rw [cleanSteps, sweepSteps, List.map_map]
  rfl

namespace Store

variable {store before middle after : Store} {location : Location} {names : List String}

/-- A directory stands where a file would go. -/
def isBlocked (store : Store) (location : Location) (name : String) : Bool :=
  store.get? (location ++ [name]) = some .directory

theorem isBlocked_iff {name : String} :
    store.isBlocked location name = true ↔ store.get? (location ++ [name]) = some .directory :=
  decide_eq_true_iff

/-- **Cleaning gets through** to the directory, or finds it missing. -/
def Opens (location : Location) (store : Store) : Prop :=
  store.walk [] location = .ok location ∨ store.walk [] location = .error .notFound

/-! ### Files that are removed -/

/-- **Names that were cleared**: nothing is left of them, and all else is as it was. -/
structure Cleared (location : Location) (names : List String) (before after : Store) : Prop where
  gone : ∀ name ∈ names, ∀ rest, after.get? (location ++ name :: rest) = none
  kept : ∀ other, (∀ name ∈ names, ¬ location ++ [name] <+: other) →
    after.get? other = before.get? other

theorem Cleared.nil (location : Location) (store : Store) : Cleared location [] store store :=
  ⟨by simp, fun _ _ => rfl⟩

theorem Cleared.cons (tree : before.IsTree) {name : String}
    (notBlocked : before.get? (location ++ [name]) ≠ some .directory)
    (first : ∀ other, middle.get? other =
      if location ++ [name] = other then none else before.get? other)
    (h : Cleared location names middle after) : Cleared location (name :: names) before after where
  gone other hother rest := by
    by_cases hmem : other ∈ names
    · exact h.gone other hmem rest
    · obtain rfl : other = name := (List.mem_cons.mp hother).resolve_right hmem
      have hkept : ∀ next ∈ names, ¬ location ++ [next] <+: location ++ other :: rest := by
        rintro next hnext hahead
        rw [List.prefix_append_right_inj, List.cons_prefix_cons] at hahead
        exact hmem (hahead.1 ▸ hnext)
      rw [h.kept _ hkept, first]
      split_ifs with hsame
      · rfl
      · have hrest : rest ≠ [] := fun hnil => hsame (by rw [hnil])
        simpa using tree.none_below notBlocked hrest
  kept other hother := by
    rw [h.kept other fun next hnext => hother next (List.mem_cons_of_mem _ hnext), first, if_neg]
    rintro rfl
    exact hother name List.mem_cons_self List.prefix_rfl

/-! ### Directories that are swept -/

/-- **A directory after cleaning**: nothing is left of the names, the directory is gone if there was
nothing else in it, and all else is as it was. -/
structure Swept (location : Location) (names : List String) (before after : Store) : Prop where
  gone : ∀ name ∈ names, ∀ rest, after.get? (location ++ name :: rest) = none
  kept : ∀ other, other ≠ location → (∀ name ∈ names, ¬ location ++ [name] <+: other) →
    after.get? other = before.get? other
  stays : (∃ name, name ∉ names ∧ before.get? (location ++ [name]) ≠ none) →
    after.get? location = before.get? location
  leaves : (∀ name, name ∉ names → before.get? (location ++ [name]) = none) →
    after.get? location = none

theorem Cleared.swept (h : Cleared location names before after)
    (more : ∃ name, name ∉ names ∧ before.get? (location ++ [name]) ≠ none) :
    Swept location names before after where
  gone := h.gone
  kept other _ := h.kept other
  stays _ := h.kept location fun name _ hahead => by
    have := hahead.length_le
    simp at this
  leaves hnone := by
    obtain ⟨name, hname, hsome⟩ := more
    exact absurd (hnone name hname) hsome

theorem Cleared.kept_name (h : Cleared location names before after) {name : String}
    (hname : name ∉ names) :
    after.get? (location ++ [name]) = before.get? (location ++ [name]) := by
  refine h.kept _ fun other hother hahead => hname ?_
  rw [List.prefix_append_right_inj] at hahead
  exact List.singleton_inj.mp (hahead.eq_of_length rfl) ▸ hother

/-- **Where nothing else was in the directory**, it is removed. -/
theorem Cleared.swept_remove (h : Cleared location names before after) (hne : location ≠ [])
    (empty : ∀ name, after.get? (location ++ [name]) = none) :
    Swept location names before (after.remove location) where
  gone name hname rest := by
    rw [get?_remove_at after hne, if_neg (by simp), h.gone name hname]
  kept other hother hkept := by
    rw [get?_remove_at after hne, if_neg (Ne.symm hother), h.kept other hkept]
  stays := by
    rintro ⟨name, hname, hsome⟩
    exact absurd (h.kept_name hname ▸ empty name) hsome
  leaves _ := by rw [get?_remove_at after hne, if_pos rfl]

theorem Swept.kept_below (h : Swept location names before after) {name : String}
    (hname : name ∉ names) (rest : Location) :
    after.get? (location ++ name :: rest) = before.get? (location ++ name :: rest) := by
  refine h.kept _ (by simp) fun other hother hahead => hname ?_
  rw [List.prefix_append_right_inj, List.cons_prefix_cons] at hahead
  exact hahead.1 ▸ hother

theorem Swept.at_location (h : Swept location names before after) :
    after.get? location = before.get? location ∨ after.get? location = none := by
  by_cases hall : ∀ name, name ∉ names → before.get? (location ++ [name]) = none
  · exact .inr (h.leaves hall)
  · simp only [not_forall] at hall
    obtain ⟨name, hname, hsome⟩ := hall
    exact .inl (h.stays ⟨name, hname, hsome⟩)

theorem Swept.of_none (hnone : ∀ rest, store.get? (location ++ rest) = none)
    (names : List String) : Swept location names store store where
  gone name _ rest := hnone (name :: rest)
  kept _ _ _ := rfl
  stays _ := rfl
  leaves _ := by simpa using hnone []

theorem Swept.trans {more : List String} (h : Swept location names before middle)
    (h' : Swept location more middle after) : Swept location (names ++ more) before after := by
  have hleft : ∀ {name}, name ∉ names ++ more → middle.get? (location ++ [name]) =
      before.get? (location ++ [name]) := fun hname =>
    h.kept_below (fun hmem => hname (List.mem_append_left _ hmem)) []
  refine ⟨fun name hname rest => ?_, fun other hne hother => ?_, ?_, fun hnone => ?_⟩
  · by_cases hmem : name ∈ more
    · exact h'.gone name hmem rest
    · rw [h'.kept_below hmem]
      exact h.gone name ((List.mem_append.mp hname).resolve_right hmem) rest
  · rw [h'.kept other hne fun name hname => hother name (List.mem_append_right _ hname),
      h.kept other hne fun name hname => hother name (List.mem_append_left _ hname)]
  · rintro ⟨name, hname, hsome⟩
    have hmiddle : middle.get? (location ++ [name]) ≠ none := by rwa [hleft hname]
    rw [List.mem_append, not_or] at hname
    rw [h'.stays ⟨name, hname.2, hmiddle⟩, h.stays ⟨name, hname.1, hsome⟩]
  · refine h'.leaves fun name hname => ?_
    by_cases hmem : name ∈ names
    · exact h.gone name hmem []
    · have hneither : name ∉ names ++ more := by simp [hmem, hname]
      rw [hleft hneither, hnone name hneither]

theorem Swept.isBlocked_eq (h : Swept location names before after)
    (hall : ∀ name ∈ names, before.isBlocked location name = false) :
    after.isBlocked location = before.isBlocked location := by
  funext name
  by_cases hmem : name ∈ names
  · rw [hall name hmem, Bool.eq_false_iff, ne_eq, isBlocked_iff, h.gone name hmem []]
    simp
  · rw [isBlocked, isBlocked, h.kept_below hmem []]

theorem Swept.settled (h : Swept location names before after) :
    (∃ name, name ∉ names ∧ after.get? (location ++ [name]) ≠ none) ∨
      after.get? location = none := by
  by_cases hall : ∀ name, name ∉ names → before.get? (location ++ [name]) = none
  · exact .inr (h.leaves hall)
  · simp only [not_forall] at hall
    obtain ⟨name, hname, hsome⟩ := hall
    exact .inl ⟨name, hname, h.kept_below hname [] ▸ hsome⟩

/-- **A swept directory stays as it is** when it is swept again. -/
theorem Swept.unchanged (h : Swept location names before after)
    (gone : ∀ name ∈ names, ∀ rest, before.get? (location ++ name :: rest) = none)
    (here : (∃ name, name ∉ names ∧ before.get? (location ++ [name]) ≠ none) ∨
      before.get? location = none) (other : Location) : after.get? other = before.get? other := by
  by_cases hloc : other = location
  · subst hloc
    rcases here with hsome | hnone
    · exact h.stays hsome
    · rcases h.at_location with hsame | hgone
      · exact hsame
      · rw [hgone, hnone]
  · by_cases hbelow : ∃ name ∈ names, location ++ [name] <+: other
    · obtain ⟨name, hname, rest, rfl⟩ := hbelow
      rw [List.append_assoc, List.singleton_append, h.gone name hname, gone name hname]
    · exact h.kept other hloc fun name hname hahead => hbelow ⟨name, hname, hahead⟩

/-! ### Walks to a directory that was swept -/

theorem keeps_remove (hne : location ≠ []) (hget : store.get? location ≠ some .directory) :
    store.Keeps (store.remove location) := by
  intro other hother
  rw [get?_remove_at store hne, if_neg]
  · exact hother
  · rintro rfl
    exact hget hother

theorem removeFile_of_reach {path : Path} {name : String}
    (leads : path.LeadsTo (location ++ [name])) (checked : check path = .ok ()) (fits : Fits name)
    (reach : store.walk [] location = .ok location) :
    store.removeFile path =
      match store.get? (location ++ [name]) with
      | none => .error .notFound
      | some .directory => .error .isDirectory
      | some (.file _) => .ok (store.remove (location ++ [name])) := by
  rw [removeFile_of_leadsTo leads, checked, reach]
  exact if_pos fits

theorem walk_of_front (notUp : ".." ∉ location) (hne : location ≠ [])
    (fits : ∀ name ∈ location, Fits name)
    (front : ∀ front, front <+: location → front ≠ location → store.get? front = some .directory) :
    store.walk [] location =
      match store.get? location with
      | some .directory => .ok location
      | some (.file _) => .error .notDirectory
      | none => .error .notFound := by
  obtain ⟨parent, name, rfl⟩ := List.eq_nil_or_concat' location |>.resolve_left hne
  simp only [List.mem_append, List.mem_singleton, not_or] at notUp
  have hparent : store.walk [] parent = .ok parent := by
    refine (walk_eq_ok notUp.1).mpr ⟨rfl, fun name hname => fits name (by simp [hname]), ?_⟩
    refine fun other hother _ => front _ (hother.trans (List.prefix_append _ _)) fun heq => ?_
    have := hother.length_le
    simp [List.nil_append] at heq
    simp [heq] at this
  rw [walk_append, hparent]
  simp only [Except.bind, walk]
  rw [enter_eq (Ne.symm notUp.2), if_pos (fits name (by simp))]
  rcases store.get? (parent ++ [name]) with _ | _ | _ <;> rfl

theorem walk_remove (notUp : ".." ∉ location) (hne : location ≠ [])
    (reach : store.walk [] location = .ok location) :
    (store.remove location).walk [] location = .error .notFound := by
  obtain ⟨-, hfits, hfront⟩ := (walk_eq_ok notUp).mp reach
  rw [walk_of_front notUp hne hfits fun front hahead hproper => ?_, get?_remove_at store hne,
    if_pos rfl]
  rw [get?_remove_at store hne, if_neg (Ne.symm hproper)]
  by_cases hnil : front = []
  · simp [hnil]
  · exact hfront front hahead hnil

theorem none_of_walk_notFound (tree : store.IsTree) : ∀ {rest done : Location}, ".." ∉ rest →
    store.walk done rest = .error .notFound → ∀ more, store.get? (done ++ rest ++ more) = none
  | [], _, _, h => by simp [walk] at h
  | name :: rest, done, notUp, h => by
    intro more
    simp only [List.mem_cons, not_or] at notUp
    rw [walk, enter_eq (Ne.symm notUp.1)] at h
    rw [List.append_cons]
    split_ifs at h with hfits
    · rcases hthere : store.get? (done ++ [name]) with _ | content | _
      · by_cases hrest : rest ++ more = []
        · rwa [List.append_assoc, hrest, List.append_nil]
        · rw [List.append_assoc]
          exact tree.none_below (by simp [hthere]) hrest
      · simp [hthere, Except.bind] at h
      · rw [hthere] at h
        exact none_of_walk_notFound tree notUp.2 h more
    · simp [Except.bind] at h

end Store

/-! ### Rounds of cleaning -/

/-- **A name in a directory** that leads to its place, can be looked up and fits. -/
structure InPlace (directory : Path) (location : Location) (name : String) : Prop where
  leads : (directory.join name).LeadsTo (location ++ [name])
  checked : check (directory.join name) = .ok ()
  fits : Fits name

section Rounds

variable {shell : Shell} {directory : Path} {location : Location}

/-- **Removing a file** where no directory stands goes on, and nothing is left of it. -/
theorem exists_perform_removeFile (shell : Shell) {name : String}
    (inPlace : InPlace directory location name) {store : Store} (tree : store.IsTree)
    (reach : store.walk [] location = .ok location) (memory : Memory)
    (free : store.get? (location ++ [name]) ≠ some .directory) :
    ∃ next, next.IsTree ∧ next.walk [] location = .ok location ∧
      (∀ other, next.get? other =
        if location ++ [name] = other then none else store.get? other) ∧
      (Step.removeFile (directory.join name)).perform shell store memory = (next, .ok memory) := by
  have hplace : location ++ [name] ≠ [] := by simp
  have hremove := removeFile_of_reach inPlace.leads inPlace.checked inPlace.fits reach
  rcases hthere : store.get? (location ++ [name]) with _ | content | _
  · rw [hthere] at hremove
    refine ⟨store, tree, reach, fun other => ?_, by rw [Step.perform, hremove]; rfl⟩
    split_ifs with hsame
    · rw [← hsame, hthere]
    · rfl
  · rw [hthere] at hremove
    refine ⟨store.remove (location ++ [name]), ?_, ?_, get?_remove_at store hplace,
      by rw [Step.perform, hremove]; rfl⟩
    · exact tree.remove hplace fun next => tree.none_below free (by simp)
    · exact (keeps_remove hplace free).walk reach
  · exact absurd hthere free

/-- **Removing files** one after another stops where a directory stands. -/
theorem performAll_removeFiles (shell : Shell) (memory : Memory) (rest : List Step) :
    ∀ {names : List String} {store : Store}, (∀ name ∈ names, InPlace directory location name) →
    store.IsTree → store.walk [] location = .ok location →
    ∃ after, after.IsTree ∧ after.walk [] location = .ok location ∧
      Cleared location (names.takeWhile (!store.isBlocked location ·)) store after ∧
      performAll shell store memory
          (names.map (fun name => .removeFile (directory.join name)) ++ rest) =
        match names.find? (store.isBlocked location) with
        | some name => (after, .error (.io (directory.join name) .isDirectory))
        | none => performAll shell after memory rest
  | [], store, _, tree, reach => ⟨store, tree, reach, .nil location store, rfl⟩
  | name :: names, store, inPlace, tree, reach => by
    have hname := inPlace name List.mem_cons_self
    rw [List.map_cons, List.cons_append, performAll]
    rcases hblocked : store.isBlocked location name with _ | _
    · have hfree : store.get? (location ++ [name]) ≠ some .directory := fun h => by
        simp [isBlocked_iff.mpr h] at hblocked
      obtain ⟨next, htree, hreach, hget, hstep⟩ :=
        exists_perform_removeFile shell hname tree reach memory hfree
      -- what is in the way of the other names still is
      have hsame : next.isBlocked location = store.isBlocked location := by
        funext other
        rw [Bool.eq_iff_iff, isBlocked_iff, isBlocked_iff, hget]
        split_ifs with hother
        · exact iff_of_false (by simp) (hother ▸ hfree)
        · rfl
      obtain ⟨after, htree', hreach', hcleared, hrun⟩ := performAll_removeFiles shell memory rest
        (fun other hother => inPlace other (List.mem_cons_of_mem _ hother)) htree hreach
      rw [hsame] at hcleared hrun
      refine ⟨after, htree', hreach', ?_, ?_⟩
      · rw [List.takeWhile_cons_of_pos (by simp [hblocked])]
        exact hcleared.cons tree hfree hget
      · rw [hstep, List.find?_cons_of_neg (by simp [hblocked])]
        exact hrun
    · have hremove := removeFile_of_reach hname.leads hname.checked hname.fits reach
      rw [isBlocked_iff.mp hblocked] at hremove
      refine ⟨store, tree, reach, ?_, ?_⟩
      · rw [List.takeWhile_cons_of_neg (by simp [hblocked])]
        exact .nil location store
      · rw [List.find?_cons_of_pos hblocked, Step.perform, hremove]
        rfl

theorem performAll_removeEmpty (shell : Shell) (leads : directory.LeadsTo location)
    (checked : check directory = .ok ()) {store : Store}
    (reach : store.walk [] location = .ok location) (memory : Memory) (rest : List Step) :
    performAll shell store memory ([.listDirectory directory, .removeListed directory] ++ rest) =
      performAll shell (if store.isEmptyAt location then store.remove location else store)
        false rest := by
  have hlist : (Step.listDirectory directory).perform shell store memory =
      (store, .ok (store.isEmptyAt location)) := by
    rw [Step.perform, directory_of_leadsTo leads, checked, reach]
    rfl
  have hremove : (Step.removeListed directory).perform shell store (store.isEmptyAt location) =
      (if store.isEmptyAt location then store.remove location else store, .ok false) := by
    rw [Step.perform, removeDirectory_of_leadsTo leads, checked, reach]
    rcases hempty : store.isEmptyAt location with _ | _
    · rfl
    · simp only [Except.bind, if_true]
      rfl
  simp only [List.cons_append, List.nil_append, performAll, hlist, hremove]

theorem performAll_sweepSteps (shell : Shell) (leads : directory.LeadsTo location)
    (checked : check directory = .ok ()) {names : List String}
    (inPlace : ∀ name ∈ names, InPlace directory location name) {store : Store}
    (tree : store.IsTree) (reach : store.walk [] location = .ok location) (memory : Memory)
    (rest : List Step) :
    ∃ after, after.IsTree ∧ Opens location after ∧
      Swept location (names.takeWhile (!store.isBlocked location ·)) store after ∧
      performAll shell store memory (sweepSteps directory names ++ rest) =
        match names.find? (store.isBlocked location) with
        | some name => (after, .error (.io (directory.join name) .isDirectory))
        | none => performAll shell after false rest := by
  obtain ⟨cleared, htree, hreach, hcleared, hrun⟩ := performAll_removeFiles shell memory
    ([.listDirectory directory, .removeListed directory] ++ rest) inPlace tree reach
  rw [sweepSteps, List.append_assoc, hrun]
  rcases hfind : names.find? (store.isBlocked location) with _ | blocked
  · simp only [performAll_removeEmpty shell leads checked hreach]
    rcases hempty : cleared.isEmptyAt location with _ | _
    · -- something else is in the directory
      refine ⟨cleared, htree, .inl hreach, hcleared.swept ?_, rfl⟩
      rw [Bool.eq_false_iff, ne_eq, isEmptyAt_iff, not_forall] at hempty
      obtain ⟨name, hsome⟩ := hempty
      have hname : name ∉ names.takeWhile (!store.isBlocked location ·) := fun hmem =>
        hsome (hcleared.gone name hmem [])
      exact ⟨name, hname, hcleared.kept_name hname ▸ hsome⟩
    · have hnone := isEmptyAt_iff.mp hempty
      exact ⟨cleared.remove location, htree.remove leads.ne_nil hnone,
        .inr (walk_remove leads.points_notMem leads.ne_nil hreach),
        hcleared.swept_remove leads.ne_nil hnone, rfl⟩
  · have hblocked : store.isBlocked location blocked = true := List.find?_some hfind
    refine ⟨cleared, htree, .inl hreach, hcleared.swept ⟨blocked, fun hmem => ?_, ?_⟩, rfl⟩
    · simpa [hblocked] using List.mem_takeWhile_imp hmem
    · rw [isBlocked_iff.mp hblocked]
      simp

theorem performAll_removeFiles_of_missing (shell : Shell) (memory : Memory) (rest : List Step)
    {store : Store} (missing : store.walk [] location = .error .notFound) :
    ∀ {names : List String}, (∀ name ∈ names, InPlace directory location name) →
      performAll shell store memory
          (names.map (fun name => .removeFile (directory.join name)) ++ rest) =
        performAll shell store memory rest
  | [], _ => rfl
  | name :: names, inPlace => by
    have hname := inPlace name List.mem_cons_self
    have hremove : store.removeFile (directory.join name) = .error .notFound := by
      rw [removeFile_of_leadsTo hname.leads, hname.checked, missing]
      rfl
    rw [List.map_cons, List.cons_append, performAll, Step.perform, hremove]
    exact performAll_removeFiles_of_missing shell memory rest missing
      fun other hother => inPlace other (List.mem_cons_of_mem _ hother)

theorem performAll_sweepSteps_of_missing (shell : Shell) (leads : directory.LeadsTo location)
    (checked : check directory = .ok ()) {names : List String}
    (inPlace : ∀ name ∈ names, InPlace directory location name) {store : Store}
    (missing : store.walk [] location = .error .notFound) (memory : Memory) (rest : List Step) :
    performAll shell store memory (sweepSteps directory names ++ rest) =
      performAll shell store false rest := by
  have hlist : (Step.listDirectory directory).perform shell store memory = (store, .ok false) := by
    rw [Step.perform, directory_of_leadsTo leads, checked, missing]
    rfl
  rw [sweepSteps, List.append_assoc,
    performAll_removeFiles_of_missing shell memory _ missing inPlace]
  simp only [List.cons_append, List.nil_append, performAll, hlist]
  rfl

/-- **One round** in a directory that is there or missing. -/
theorem performAll_round (shell : Shell) (leads : directory.LeadsTo location)
    (checked : check directory = .ok ()) {names : List String}
    (inPlace : ∀ name ∈ names, InPlace directory location name) {store : Store}
    (tree : store.IsTree) (opens : Opens location store) (memory : Memory) (rest : List Step) :
    ∃ after, after.IsTree ∧ Opens location after ∧
      Swept location (names.takeWhile (!store.isBlocked location ·)) store after ∧
      performAll shell store memory (sweepSteps directory names ++ rest) =
        match names.find? (store.isBlocked location) with
        | some name => (after, .error (.io (directory.join name) .isDirectory))
        | none => performAll shell after false rest := by
  rcases opens with reach | missing
  · exact performAll_sweepSteps shell leads checked inPlace tree reach memory rest
  · have hnone := none_of_walk_notFound tree leads.points_notMem missing
    rw [List.nil_append] at hnone
    have hfind : names.find? (store.isBlocked location) = none := by
      simp [List.find?_eq_none, isBlocked_iff, hnone]
    refine ⟨store, tree, .inr missing, .of_none hnone _, ?_⟩
    rw [hfind]
    exact performAll_sweepSteps_of_missing shell leads checked inPlace missing memory rest

/-- **Several rounds**, at least one: cleaning stops at the first name where a directory stands, or
sweeps the directory of all names. -/
theorem performAll_rounds (shell : Shell) (leads : directory.LeadsTo location)
    (checked : check directory = .ok ()) (rest : List Step) : ∀ {rounds : List (List String)}
    {store : Store} (memory : Memory), rounds ≠ [] →
    (∀ name ∈ rounds.flatten, InPlace directory location name) → store.IsTree →
    Opens location store →
    ∃ after, after.IsTree ∧ Opens location after ∧
      Swept location (rounds.flatten.takeWhile (!store.isBlocked location ·)) store after ∧
      performAll shell store memory (rounds.flatMap (sweepSteps directory) ++ rest) =
        match rounds.flatten.find? (store.isBlocked location) with
        | some name => (after, .error (.io (directory.join name) .isDirectory))
        | none => performAll shell after false rest
  | [], _, _, hne, _, _, _ => absurd rfl hne
  | [round], store, memory, _, inPlace, tree, opens => by
    rw [List.flatten_singleton] at inPlace ⊢
    rw [List.flatMap_singleton]
    exact performAll_round shell leads checked inPlace tree opens memory rest
  | round :: next :: rounds, store, memory, _, inPlace, tree, opens => by
    rw [List.flatten_cons] at inPlace ⊢
    obtain ⟨middle, htree, hopens, hswept, hfirst⟩ := performAll_round shell leads checked
      (fun name hname => inPlace name (List.mem_append_left _ hname)) tree opens memory
      ((next :: rounds).flatMap (sweepSteps directory) ++ rest)
    rw [List.flatMap_cons, List.append_assoc, hfirst, List.find?_append]
    rcases hfind : round.find? (store.isBlocked location) with _ | blocked
    · -- nothing is in the way of this round, so the next ones find what was in their way before
      have hall : ∀ name ∈ round, store.isBlocked location name = false := by
        simpa using List.find?_eq_none.mp hfind
      have htake : round.takeWhile (!store.isBlocked location ·) = round :=
        List.takeWhile_eq_self_iff.mpr fun name hname => by simp [hall name hname]
      rw [htake] at hswept
      obtain ⟨after, htree', hopens', hswept', hrest⟩ := performAll_rounds shell leads checked rest
        false (List.cons_ne_nil next rounds)
        (fun name hname => inPlace name (List.mem_append_right _ hname)) htree hopens
      rw [hswept.isBlocked_eq hall] at hswept' hrest
      refine ⟨after, htree', hopens', ?_, hrest⟩
      rw [List.takeWhile_append, if_pos (by rw [htake])]
      exact hswept.trans hswept'
    · refine ⟨middle, htree, hopens, ?_, rfl⟩
      have hmem := List.mem_of_find?_eq_some hfind
      have hblocked := List.find?_some hfind
      rw [List.takeWhile_append, if_neg]
      · exact hswept
      · intro hlength
        have htake := (List.takeWhile_prefix _).eq_of_length hlength
        simpa [hblocked] using List.takeWhile_eq_self_iff.mp htake blocked hmem

end Rounds

end TokenSheets
