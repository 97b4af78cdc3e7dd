import Mathlib.Tactic
import TokenSheets.CommandLine

/-!
# Configurations field by field

Options, file and defaults lie over one another, and each field of a configuration takes what lies
uppermost. `Toml.found?` is what a file says under a key; a record that the file does not have has
no fields. `Options.layered` puts the three layers together without looking at a configuration that
was read before.

* `Toml.field?_eq_some`: a field that is read is what the file says, or else the default;
* `Options.override_ofToml?`: the options over a configuration that was read are the three layers.
-/

namespace TokenSheets

/-! ### What a file says -/

namespace Toml

variable {α : Type} {read : Toml → Option α} {key : String} {fields : Entries String Toml}

/-- **What a file says under a key**, if anything that `read` takes. -/
def found? (read : Toml → Option α) (key : String) (fields : Entries String Toml) : Option α :=
  (fields.get? key).bind read

/-- The fields of a record that stands under a key; a record that is not there has none. -/
def recordAt (names : List String) (key : String) (fields : Entries String Toml) :
    Entries String Toml :=
  (found? (record? names) key fields).getD []

/-- The fields of the scale. -/
def unitsOf (fields : Entries String Toml) : Entries String Toml :=
  recordAt ["base_font_size", "base_screen_width"] "units" fields

/-- **A field that is read** is what the file says, or else the default. -/
theorem field?_eq_some {default value : α} (h : field? read key default fields = some value) :
    value = (found? read key fields).getD default := by
  unfold field? at h
  unfold found?
  rcases hget : fields.get? key with _ | here
  · rw [hget] at h
    exact (Option.some.inj h).symm
  · rw [hget] at h
    simp only [Option.bind_some, h, Option.getD_some]

theorem field?_optional_eq_some {value : Option α}
    (h : field? (fun here => (read here).map some) key none fields = some value) :
    value = found? read key fields := by
  rw [field?_eq_some h, found?, found?]
  rcases fields.get? key with _ | here
  · rfl
  · rcases hread : read here with _ | found <;> simp [hread]

theorem field?_record_eq_some {names : List String} {make : Entries String Toml → Option α}
    {default value : α} (hdefault : make [] = some default)
    (h : field? (fun here => (record? names here).bind make) key default fields = some value) :
    make (recordAt names key fields) = some value := by
  unfold field? at h
  unfold recordAt found?
  rcases hget : fields.get? key with _ | here
  · rw [hget] at h
    rw [← h]
    exact hdefault
  · rw [hget] at h
    simp only at h
    obtain ⟨inner, hinner, hmake⟩ := Option.bind_eq_some_iff.mp h
    rw [Option.bind_some, hinner]
    exact hmake

end Toml

open Toml (found? unitsOf)

/-- The settings of a namespace: what its record says, or else the default. -/
def Settings.layered (value : Toml) : Settings :=
  let fields := (Toml.record? ["text", "script"] value).getD []
  { text := (found? Toml.bool? "text" fields).getD false
    script := found? Toml.text? "script" fields }

/-- **Three layers**: each field is that of the options, or else what the file says, or else the
default. Only the file has settings of namespaces. -/
def Options.layered (options : Options) (fields : Entries String Toml) : Config :=
  let path? := found? fun value => (Toml.text? value).map Path.mk
  { source := (options.source.or (path? "source" fields)).getD ⟨"tokens/core.json"⟩
    textSource := (options.textSource.or (path? "text_source" fields)).getD ⟨"tokens/font.json"⟩
    targetDir := (options.targetDir.or (path? "target_dir" fields)).getD ⟨"css"⟩
    scale := {
      baseFontSize := (options.baseFontSize.or
        (found? Toml.number? "base_font_size" (unitsOf fields))).getD 16.0
      baseScreenWidth := (options.baseScreenWidth.or
        (found? Toml.number? "base_screen_width" (unitsOf fields))).getD 375.0 }
    namespaces := ((found? Toml.members? "namespaces" fields).getD []).map fun p =>
      (p.1, Settings.layered p.2) }

/-! ### Records that are read -/

theorem Settings.eq_layered {value : Toml} {settings : Settings}
    (h : Settings.ofToml? value = some settings) : settings = Settings.layered value := by
  simp only [Settings.ofToml?, Option.bind_eq_bind, Option.pure_def, Option.bind_eq_some_iff,
    Option.some.injEq] at h
  obtain ⟨fields, hfields, text, htext, script, hscript, rfl⟩ := h
  rw [Settings.layered, hfields, Option.getD_some, ← Toml.field?_eq_some htext,
    ← Toml.field?_optional_eq_some hscript]

theorem Settings.eq_map_of_mapM {members : Entries String Toml} {found : Entries String Settings}
    (h : (members.mapM fun p => do return (p.1, ← Settings.ofToml? p.2)) = some found) :
    found = members.map fun p => (p.1, Settings.layered p.2) := by
  induction members generalizing found with
  | nil => simpa [eq_comm] using h
  | cons p rest ih =>
    simp only [List.mapM_cons, Option.bind_eq_bind, Option.pure_def, Option.bind_eq_some_iff,
      Option.some.injEq] at h ih
    obtain ⟨_, ⟨settings, hsettings, rfl⟩, later, hlater, rfl⟩ := h
    rw [List.map_cons, ih hlater, Settings.eq_layered hsettings]

/-- **The settings of all namespaces**, each by its own record. -/
theorem Settings.eq_map_layered {fields : Entries String Toml} {found : Entries String Settings}
    (h : Toml.field? Config.namespacesOfToml? "namespaces" [] fields = some found) :
    found = ((found? Toml.members? "namespaces" fields).getD []).map fun p =>
      (p.1, Settings.layered p.2) := by
  unfold Toml.field? at h
  unfold found?
  rcases hget : fields.get? "namespaces" with _ | here
  · rw [hget] at h
    exact (Option.some.inj h).symm
  · rw [hget] at h
    obtain ⟨members, hmembers, hall⟩ := Option.bind_eq_some_iff.mp h
    rw [Option.bind_some, hmembers, Option.getD_some]
    exact Settings.eq_map_of_mapM hall

theorem Scale.eq_layered {fields : Entries String Toml} {scale : Scale}
    (h : Toml.field? Scale.ofToml? "units" {} fields = some scale) :
    scale =
      { baseFontSize := (found? Toml.number? "base_font_size" (unitsOf fields)).getD 16.0
        baseScreenWidth :=
          (found? Toml.number? "base_screen_width" (unitsOf fields)).getD 375.0 } := by
  have hread := Toml.field?_record_eq_some (rfl : _ = some ({} : Scale)) h
  simp only [Option.bind_eq_bind, Option.pure_def, Option.bind_eq_some_iff, Option.some.injEq]
    at hread
  obtain ⟨font, hfont, width, hwidth, rfl⟩ := hread
  rw [Toml.field?_eq_some hfont, Toml.field?_eq_some hwidth]
  rfl

/-! ### Whole configurations -/

/-- **The options over a configuration that was read** are the three layers. -/
theorem Options.override_ofToml? {fields : Entries String Toml} {config : Config}
    (h : Config.ofToml? fields = some config) (options : Options) :
    options.override config = options.layered fields := by
  simp only [Config.ofToml?, Option.bind_eq_bind, Option.pure_def, Option.bind_eq_some_iff,
    Option.some.injEq] at h
  obtain ⟨source, hsource, textSource, htext, targetDir, htarget, scale, hscale, namespaces,
    hnamespaces, rfl⟩ := h
  rw [Options.override, Options.layered, Toml.field?_eq_some hsource, Toml.field?_eq_some htext,
    Toml.field?_eq_some htarget, Scale.eq_layered hscale, Settings.eq_map_layered hnamespaces]
  simp only [Option.getD_or]
  rfl

end TokenSheets
