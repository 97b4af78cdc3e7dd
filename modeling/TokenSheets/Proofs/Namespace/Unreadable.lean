import Mathlib
import TokenSheets.Proofs.Build.Contents
import TokenSheets.Proofs.Namespace.Accounting
import TokenSheets.Proofs.Namespace.Directories
import TokenSheets.Proofs.Token.Loading

/-!
# Documents that do not load

One leaf that is mistyped keeps a whole document from being read, and the run goes on as if the
document were empty. If it is the main document there is nothing to build. If it is the text
document, the namespaces are built without texts; what the steps do then depends on where files
stand, and not on what is in the document.

* `Store.Loads`, `readTree_of_not_loads`: a document that does not load is read as the empty tree;
* `Store.Empties`, `readTree_of_empties`: when it is emptied where it is, the same is read at every
  path;
* `buildJobs_of_alike`: the same jobs in stores that look alike;
* `mistyped_leaves_empty_a_document`: what keeps a document from loading, and what a run does then.
-/

namespace TokenSheets

open Store

/-- The text of a document without members. -/
def emptyDocument : String := "\x7b\x7d"

variable {store emptied : Store} {path : Path} {config : Config} {shell : Shell}

/-! ### Reading -/

namespace Store

/-- **A document loads**: there is a text at the path, and it is read as a tree. -/
def Loads (store : Store) (path : Path) : Prop :=
  ∃ text tree, store.readText path = some text ∧ Tree.read text = .ok tree

/-- **The empty document in place of the file at a path**, as it is in another store. -/
structure Empties (store : Store) (path : Path) (emptied : Store) : Prop where
  there : ∃ content, store.readFile path = .ok content
  written : store.writeFile path emptyDocument.toUTF8 = .ok emptied

theorem readFile_of_child {location : Location} {name : String}
    (h : store.locate path = .ok (.child location name)) :
    store.readFile path =
      match store.get? (location ++ [name]) with
      | none => .error .notFound
      | some .directory => .error .isDirectory
      | some (.file content) =>
        if path.meansDirectory then .error .notDirectory else .ok content := by
  rw [readFile, h]
  rfl

theorem of_readFile_eq_ok {content : ByteArray} (h : store.readFile path = .ok content) :
    ∃ location name, store.locate path = .ok (.child location name) ∧
      store.get? (location ++ [name]) = some (.file content) ∧ path.meansDirectory = false := by
  rcases hlocate : store.locate path with fault | location | ⟨location, name⟩
  · rw [readFile, hlocate] at h
    cases h
  · rw [readFile, hlocate] at h
    cases h
  · rw [readFile_of_child hlocate] at h
    rcases hget : store.get? (location ++ [name]) with _ | found | _ <;> simp only [hget] at h
    · cases h
    · split_ifs at h with hmeans
      obtain rfl := Except.ok.inj h
      exact ⟨location, name, rfl, hget, by simpa using hmeans⟩
    · cases h

section Replaced

variable {place : Location} {content : ByteArray} (hne : place ≠ [])
  (hget : store.get? place = some (.file content)) (content' : ByteArray)

include hne hget

theorem looksLike_put : LooksLike [] store (store.put place (.file content')) := by
  intro other _
  rw [get?_put_at _ _ hne]
  split_ifs with hother
  · subst hother
    rw [hget]
    exact ⟨by simp, by simp⟩
  · exact .rfl

/-- **Reading when a file was replaced**: the path is one of the file, or the same is read. -/
theorem readText_put (path : Path) :
    (store.readText path = String.fromUTF8? content ∧
      (store.put place (.file content')).readText path = String.fromUTF8? content') ∨
      (store.put place (.file content')).readText path = store.readText path := by
  have looks := looksLike_put hne hget content'
  have hlocate' := locate_of_looksLike looks path
  rcases hlocate : store.locate path with fault | location | ⟨location, name⟩ <;>
    rw [hlocate] at hlocate'
  · right
    rw [readText_eq, readText_eq, readFile, readFile, hlocate, hlocate']
    rfl
  · right
    rw [readText_eq, readText_eq, readFile, readFile, hlocate, hlocate']
    rfl
  · rw [readText_eq, readText_eq, readFile_of_child hlocate, readFile_of_child hlocate',
      get?_put_at _ _ hne]
    by_cases hplace : place = location ++ [name]
    · rw [if_pos hplace, ← hplace, hget]
      rcases path.meansDirectory
      · exact .inl ⟨rfl, rfl⟩
      · exact .inr rfl
    · rw [if_neg hplace]
      exact .inr rfl

end Replaced

/-- **The empty document in place of another one** is a file in place of another one, and both are
read at the path. -/
theorem exists_of_empties (h : store.Empties path emptied) :
    ∃ place content, place ≠ [] ∧ place = placeOf path.segments ∧
      store.get? place = some (.file content) ∧ store.readText path = String.fromUTF8? content ∧
      emptied = store.put place (.file emptyDocument.toUTF8) := by
  obtain ⟨⟨content, hread⟩, hwritten⟩ := h
  obtain ⟨location, name, hlocate, hget, hmeans⟩ := of_readFile_eq_ok hread
  have htext : store.readText path = String.fromUTF8? content := by rw [readText_eq, hread]
  refine ⟨location ++ [name], content, by simp, place_of_child hlocate, hget, htext, ?_⟩
  rw [writeFile, hlocate] at hwritten
  simp only [bind, Except.bind, hget, hmeans] at hwritten
  exact (Except.ok.inj hwritten).symm

end Store

theorem Store.Empties.looksLike (h : store.Empties path emptied) : LooksLike [] store emptied := by
  obtain ⟨place, content, hne, -, hget, -, rfl⟩ := exists_of_empties h
  exact looksLike_put hne hget _

theorem fromUTF8?_emptyDocument : String.fromUTF8? emptyDocument.toUTF8 = some emptyDocument :=
  dif_pos emptyDocument.isValidUTF8

/-! ### Trees -/

/-- **A document that does not load** is read as the empty tree. -/
theorem readTree_of_not_loads (h : ¬ store.Loads path) : readTree store path = {} := by
  unfold readTree
  rcases htext : store.readText path with _ | text
  · rfl
  · rcases hread : Tree.read text with error | tree
    · simp only [hread]
    · exact absurd ⟨text, tree, htext, hread⟩ h

theorem read_emptyDocument : Tree.read emptyDocument = .ok {} := by cbv

theorem readTree_of_emptyDocument (h : store.readText path = some emptyDocument) :
    readTree store path = {} := by
  simp only [readTree, h, read_emptyDocument]

/-- What is read at any path is the same when a document that does not load is emptied. -/
theorem readTree_of_empties (h : store.Empties path emptied) (hloads : ¬ store.Loads path)
    (other : Path) : readTree emptied other = readTree store other := by
  obtain ⟨place, content, hne, -, hget, htext, rfl⟩ := exists_of_empties h
  rcases readText_put hne hget emptyDocument.toUTF8 other with ⟨hsame, hempty⟩ | hsame
  · -- the other path leads to the same file, which does not load either
    have hother : ¬ store.Loads other := by
      rintro ⟨text, tree, hread, htree⟩
      exact hloads ⟨text, tree, htext.trans (hsame.symm.trans hread), htree⟩
    rw [readTree_of_not_loads hother,
      readTree_of_emptyDocument (hempty.trans fromUTF8?_emptyDocument)]
  · rw [readTree, readTree, hsame]

/-! ### Runs -/

/-- **The same jobs in stores that look alike** come to the same report, and leave the same
everywhere, or what was there before. -/
theorem buildJobs_of_alike [Name.Transliteration] {jobs : List Job} (schedule : Schedule)
    (looks : LooksLike [] store emptied)
    (overlooks : ∀ job ∈ jobs, ∀ script, job.settings.script = some script →
      shell.Overlooks script store emptied) :
    (buildJobs shell schedule store jobs).2 = (buildJobs shell schedule emptied jobs).2 ∧
      Twins [] store emptied (buildJobs shell schedule store jobs).1
        (buildJobs shell schedule emptied jobs).1 := by
  have hruns : ∀ task ∈ (Job.dispatched jobs).map fun job => Task.ofSteps job.steps,
      task.Overlooks shell store emptied := by
    intro task htask step hstep script hscript
    obtain ⟨job, hjob, rfl⟩ := List.mem_map.mp htask
    rcases Job.keepsTo_of_mem_steps hstep with hkeeps | ⟨found, hfound, hcommand⟩
    · rw [hscript] at hkeeps
      cases hkeeps
    · obtain rfl : script = found := Step.command.inj (hscript.symm.trans hcommand)
      exact overlooks job (Job.mem_dispatched.mp hjob).1 script hfound
  obtain ⟨hsame, htwins⟩ := along_of_alike schedule hruns looks
  refine ⟨?_, htwins⟩
  unfold buildJobs
  dsimp only
  rw [hsame]

/-- **What is left at a place** by two runs, in stores that differ in one document: the same, or
neither of them touched the document. -/
theorem get?_of_twins (h : store.Empties path emptied) {after after' : Store}
    (twins : Twins [] store emptied after after') (place : Location) :
    after.get? place = after'.get? place ∨
      (place = placeOf path.segments ∧ after.get? place = store.get? place ∧
        after'.get? place = emptied.get? place) := by
  obtain ⟨document, content, hne, hplace, -, -, rfl⟩ := exists_of_empties h
  rcases twins.below place with hsame | ⟨hbefore, hbefore'⟩
  · exact .inl hsame
  · by_cases hdocument : document = place
    · exact .inr ⟨hdocument ▸ hplace, hbefore, hbefore'⟩
    · left
      rw [List.nil_append, get?_put_at _ _ hne, if_neg hdocument] at hbefore'
      exact hbefore.trans hbefore'.symm

/-- **A run on two documents**, the main document and that of the texts. -/
def runOn [Name.Transliteration]
    (shell : Shell) (schedule : Schedule) (config : Config) (store : Store)
    (main texts : Tree) : Store × Report :=
  buildJobs shell schedule store (Job.ofDocument config (SharedText.merge texts) main)

/-- **A document loads unless keys lead to a leaf that is mistyped**, and a document that does not
load is as good as an empty one: a run goes on with the tree of the empty document in its place, and
does what it does if the configuration names an empty document instead. With the main document
empty, it does nothing. And if the text document is emptied where it is, all reports and all that is
left are the same, apart from the document itself, as long as no command looks into it. -/
theorem mistyped_leaves_empty_a_document [Name.Transliteration] :
    (∀ (text : String) (members : Entries String Json), Json.read text = .ok (.object members) →
      ((∃ error, Tree.read text = .error error) ↔
        ∃ keys groups leaf, Leads members keys groups leaf ∧ Token.IsMistyped leaf) ∧
      ∀ error, Tree.read text = .error error → error = .mismatch) ∧
    ∃ empty, Tree.read emptyDocument = .ok empty ∧
    ∀ (shell : Shell) (schedule : Schedule) (config : Config) (store : Store),
      let run := runAlong shell schedule
      (¬ store.Loads config.source →
        run config store =
          runOn shell schedule config store empty (readTree store config.textSource) ∧
        (∀ path, store.readText path = some emptyDocument →
          run config store = run { config with source := path } store) ∧
        run config store = (store, ⟨[], []⟩) ∧
        ∀ emptied : Store, emptied.readText config.source = some emptyDocument →
          run config emptied = (emptied, ⟨[], []⟩)) ∧
      (¬ store.Loads config.textSource →
        run config store =
          runOn shell schedule config store (readTree store config.source) empty ∧
        (∀ path, store.readText path = some emptyDocument →
          run config store = run { config with textSource := path } store) ∧
        ∀ emptied, store.Empties config.textSource emptied →
          (∀ job ∈ jobsOf config emptied, ∀ script, job.settings.script = some script →
            shell.Overlooks script store emptied) →
          (run config store).2 = (run config emptied).2 ∧
          ∀ place, (run config store).1.get? place = (run config emptied).1.get? place ∨
            (place = placeOf config.textSource.segments ∧
              (run config store).1.get? place = store.get? place ∧
              (run config emptied).1.get? place = emptied.get? place)) := by
  refine ⟨fun text members hread => ?_, {}, read_emptyDocument,
    fun shell schedule config store => ?_⟩
  · simp only [Tree.read_of_object hread, groupOfMembers_eq_error]
    exact ⟨⟨fun ⟨_, _, h⟩ => h, fun h => ⟨_, rfl, h⟩⟩, fun _ h => h.1⟩
  refine ⟨fun hloads => ?_, fun hloads => ?_⟩
  · have hempty := readTree_of_not_loads hloads
    refine ⟨?_, fun path hpath => ?_, runAlong_of_readTree_empty hempty shell schedule,
      fun emptied hemptied =>
        runAlong_of_readTree_empty (readTree_of_emptyDocument hemptied) shell schedule⟩
    · simp only [runAlong, jobsOf, hempty]
      rfl
    · simp only [runAlong, jobsOf, hempty, readTree_of_emptyDocument hpath]
      rfl
  · have hempty := readTree_of_not_loads hloads
    refine ⟨?_, fun path hpath => ?_, fun emptied hempties overlooks => ?_⟩
    · simp only [runAlong, jobsOf, hempty]
      rfl
    · simp only [runAlong, jobsOf, hempty, readTree_of_emptyDocument hpath]
      rfl
    · have hjobs : jobsOf config emptied = jobsOf config store := by
        simp only [jobsOf, readTree_of_empties hempties hloads]
      obtain ⟨hreport, htwins⟩ := buildJobs_of_alike schedule hempties.looksLike overlooks
      simp only [runAlong, ← hjobs]
      exact ⟨hreport, get?_of_twins hempties htwins⟩

section

attribute [local instance] Name.Transliteration.ascii

/-- A text whose type is a number keeps the text document from loading; that the type of its group
is one does not matter. The namespace is built as if there were no texts, and as it is when the
document is emptied; as the main document it leaves nothing to build. -/
theorem mistyped_leaves_empty_a_document_number :
    let texts := "\x7b\"Home\":\x7b\"$type\":1," ++
      "\"hi\":\x7b\"$value\":\"Hi\",\"type\":2\x7d\x7d\x7d"
    let store : Store := ⟨[(["tokens"], .directory),
      (["tokens", "core.json"], .file "\x7b\"a\":\x7b\x7d\x7d".toUTF8),
      (["tokens", "font.json"], .file texts.toUTF8), (["empty"], .file emptyDocument.toUTF8)]⟩
    let emptied := store.put ["tokens", "font.json"] (.file emptyDocument.toUTF8)
    let asMain : Config := { source := ({} : Config).textSource }
    let shell : Shell := ⟨fun _ store => (store, .exited 0)⟩
    (∃ error, Tree.read texts = .error error) ∧ ¬ store.Loads ({} : Config).textSource ∧
    (runAlong shell [] {} store).2.built = ["a"] ∧
    runAlong shell [] {} store = runAlong shell [] { textSource := ⟨"empty"⟩ } store ∧
    (runAlong shell [] {} store).2 = (runAlong shell [] {} emptied).2 ∧
    runAlong shell [] asMain store = (store, ⟨[], []⟩) := by
  intro texts store emptied asMain shell
  obtain ⟨hloading, empty, -, hruns⟩ := mistyped_leaves_empty_a_document
  have hread : Json.read texts = .ok (.object [("Home", .object [("$type", .whole 1),
      ("hi", .object [("$value", .text "Hi"), ("type", .whole 2)])])]) := by cbv
  have hleads : Leads [("Home", .object [("$type", .whole 1),
      ("hi", .object [("$value", .text "Hi"), ("type", .whole 2)])])] ["Home", "hi"] _
      [("$value", .text "Hi"), ("type", .whole 2)] :=
    .group (List.mem_singleton_self _) rfl rfl (.leaf (by simp) rfl rfl)
  have hmistyped : Token.IsMistyped [("$value", .text "Hi"), ("type", .whole 2)] :=
    ⟨"type", by simp [Token.textFieldNames], .whole 2, rfl, by simp, by simp⟩
  have hrefused := (hloading texts _ hread).1.mpr ⟨_, _, _, hleads, hmistyped⟩
  have htext : store.readText ({} : Config).textSource = some texts := by decide +kernel
  have hloads : ¬ store.Loads ({} : Config).textSource := by
    rintro ⟨text, tree, hsome, htree⟩
    obtain ⟨error, herror⟩ := hrefused
    obtain rfl : texts = text := Option.some.inj (htext.symm.trans hsome)
    simp [herror] at htree
  have hlocate : store.locate ({} : Config).textSource = .ok (.child ["tokens"] "font.json") := by
    decide +kernel
  have hempties : store.Empties ({} : Config).textSource emptied :=
    ⟨⟨texts.toUTF8, by decide +kernel⟩, by rw [writeFile, hlocate]; rfl⟩
  have hscripts : ∀ job ∈ jobsOf {} emptied, ∀ script, job.settings.script = some script →
      shell.Overlooks script store emptied :=
    fun _ _ _ _ now now' twins => ⟨rfl, twins⟩
  obtain ⟨-, helsewhere, hinPlace⟩ := (hruns shell [] {} store).2 hloads
  obtain ⟨-, -, hmain, -⟩ := (hruns shell [] asMain store).1 hloads
  have hbuilt : (runAlong shell [] {} store).2.built = ["a"] := by decide +kernel
  exact ⟨hrefused, hloads, hbuilt, helsewhere ⟨"empty"⟩ (by decide +kernel),
    (hinPlace emptied hempties hscripts).1, hmain⟩

end

end TokenSheets
