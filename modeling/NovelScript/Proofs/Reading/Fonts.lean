import Mathlib.Data.List.Induction
import NovelScript.Program.Console
import NovelScript.Proofs.Conditionals.Validation

/-!
Font tags on a console. What a font tag sets is decided when the script is read, from its attributes
one behind the other; what is shown of it is decided by the console, for which a style that sets
nothing restores the defaults. Main statement: a font tag that sets anything changes the colour and
the weight only as it says, and one that sets nothing restores the defaults.
-/

namespace NovelScript.Script

/-! ### What the attributes set -/

/-- What the last attribute with a name is read as. -/
def lastSetting? {α : Type} (read? : String → Option α) (name : String) (as : List Attribute) :
    Option α :=
  (as.reverse.find? (·.name = name)).bind fun a => read? a.value

/-- The style that attributes set: for each name the last attribute counts. -/
def Font.ofAttributes (as : List Attribute) : Font where
  size := lastSetting? Text.readInt32? "size" as
  face := lastSetting? some "face" as
  color := lastSetting? Color.read? "color" as
  rubySize := lastSetting? Text.readInt32? "rubysize" as
  rubyOffset := lastSetting? Text.readInt32? "rubyoffset" as
  rubyFace := lastSetting? some "rubyface" as
  shadow := lastSetting? Builder.readBool? "shadow" as
  shadowColor := lastSetting? Color.read? "shadowcolor" as
  edge := lastSetting? Builder.readBool? "edge" as
  edgeColor := lastSetting? Color.read? "edgecolor" as
  bold := lastSetting? Builder.readBool? "bold" as

/-- Whether an attribute is a setting of a style and has a valid value. -/
def Attribute.isValidSetting (a : Attribute) : Bool :=
  match a.name with
  | "size" | "rubysize" | "rubyoffset" => (Text.readInt32? a.value).isSome
  | "face" | "rubyface" => true
  | "color" | "shadowcolor" | "edgecolor" => (Color.read? a.value).isSome
  | "shadow" | "edge" | "bold" => (Builder.readBool? a.value).isSome
  | _ => false

/-- No attribute that is the last of its name is a setting with a valid value. -/
def Tag.SetsNothing (tag : Tag) : Prop :=
  ∀ name a, tag.attributes.reverse.find? (·.name = name) = some a → a.isValidSetting = false

variable {α : Type} {read? : String → Option α} {name : String} {as : List Attribute}

theorem lastSetting?_concat (read? : String → Option α) (name : String) (as : List Attribute)
    (a : Attribute) : lastSetting? read? name (as ++ [a]) =
      if a.name = name then read? a.value else lastSetting? read? name as := by
  rw [lastSetting?, List.reverse_append, List.reverse_singleton, List.singleton_append,
    List.find?_cons]
  by_cases h : a.name = name <;> simp [h, lastSetting?]

theorem exists_of_lastSetting? {x : α} (h : lastSetting? read? name as = some x) :
    ∃ a ∈ as, a.name = name ∧ read? a.value = some x := by
  obtain ⟨a, hfind, hread⟩ := Option.bind_eq_some_iff.mp h
  exact ⟨a, List.mem_reverse.mp (List.mem_of_find?_eq_some hfind),
    by simpa using List.find?_some hfind, hread⟩

theorem lastSetting?_eq_none : lastSetting? read? name as = none ↔
    ∀ a, as.reverse.find? (·.name = name) = some a → read? a.value = none := by
  rw [lastSetting?, Option.bind_eq_none_iff]

/-- The attributes of a tag that sets nothing leave all of a style open, and only those do. -/
theorem setsNothing_iff (tag : Tag) : tag.SetsNothing ↔ Font.ofAttributes tag.attributes = {} := by
  have hname : ∀ {name : String} {a : Attribute},
      tag.attributes.reverse.find? (·.name = name) = some a → a.name = name :=
    fun h => by simpa using List.find?_some h
  constructor
  · intro h
    have hnone : ∀ {α : Type} (read? : String → Option α) (name : String),
        (∀ a : Attribute, a.name = name → a.isValidSetting = (read? a.value).isSome) →
          lastSetting? read? name tag.attributes = none := by
      intro α read? name hvalid
      refine lastSetting?_eq_none.mpr fun a hfind => ?_
      have hsetting := h name a hfind
      rw [hvalid a (hname hfind)] at hsetting
      exact Option.not_isSome_iff_eq_none.mp (by simp [hsetting])
    simp only [Font.ofAttributes, Font.mk.injEq]
    refine ⟨hnone _ _ ?_, hnone _ _ ?_, hnone _ _ ?_, hnone _ _ ?_, hnone _ _ ?_, hnone _ _ ?_,
      hnone _ _ ?_, hnone _ _ ?_, hnone _ _ ?_, hnone _ _ ?_, hnone _ _ ?_⟩ <;>
      exact fun a ha => by simp [Attribute.isValidSetting, ha]
  · intro h name a hfind
    simp only [Font.ofAttributes, Font.mk.injEq, lastSetting?_eq_none] at h
    obtain rfl := hname hfind
    unfold Attribute.isValidSetting
    split <;> simp_all

namespace Builder

theorem readSetting_fst (read? : String → Option α) (finding : String → String → Finding)
    (name value : String) (place : Position) (b : Builder) :
    (readSetting read? finding name value place b).1 = read? value := by
  unfold readSetting
  cases read? value <;> rfl

theorem script_readSetting (read? : String → Option α) (finding : String → String → Finding)
    (name value : String) (place : Position) (b : Builder) :
    (readSetting read? finding name value place b).2.script = b.script := by
  unfold readSetting
  cases read? value <;> rfl

theorem script_readFontSetting (place : Position) (read : Font × Builder) (a : Attribute) :
    (readFontSetting place read a).2.script = read.2.script := by
  unfold readFontSetting
  simp only
  split <;> first | exact script_readSetting .. | rfl

theorem fst_readFontSetting (place : Position) {read : Font × Builder} (a : Attribute)
    (h : read.1 = Font.ofAttributes as) :
    (readFontSetting place read a).1 = Font.ofAttributes (as ++ [a]) := by
  unfold readFontSetting
  simp only [readSetting_fst]
  split <;> simp_all [Font.ofAttributes, lastSetting?_concat]

/-- A style is read as what its attributes set. -/
theorem fst_readFontSettings (place : Position) (b : Builder) (as : List Attribute) :
    (as.foldl (readFontSetting place) ({}, b)).1 = Font.ofAttributes as := by
  induction as using List.reverseRecOn with
  | nil => rfl
  | append_singleton as a ih =>
    rw [List.foldl_append, List.foldl_cons, List.foldl_nil]
    exact fst_readFontSetting place a ih

theorem script_readFontSettings (place : Position) (as : List Attribute) :
    ∀ read : Font × Builder, (as.foldl (readFontSetting place) read).2.script = read.2.script := by
  induction as with
  | nil => exact fun _ => rfl
  | cons a as ih => exact fun read => (ih _).trans (script_readFontSetting place read a)

/-- **A font tag adds one command**, the style that its attributes set. -/
theorem queue_readTag_font {tag : Tag} (hname : Text.lowercase tag.name = TagKind.font.name)
    (place : Position) (b : Builder) : (b.readTag tag place).script.queue =
      (b.script.queue.enqueue (.font (Font.ofAttributes tag.attributes))).2 := by
  have hkind : TagKind.find? (Text.lowercase tag.name) = some .font := by
    rw [hname]
    decide
  have hwarned := script_foldl_report
    (fun b (a : Attribute) => b.report (.unknownAttribute (Text.lowercase tag.name) a.name) place)
    (fun _ _ => rfl) (tag.unknownAttributes (some .font)) b
  unfold readTag
  simp only [hkind, readKnownTag, readFont, add, fst_readFontSettings, script_readFontSettings,
    hwarned]

end Builder

end Script

/-! ### What a console shows of it -/

open Script

namespace Style

variable {style : Style} {font : Font}

theorem apply_of_ne (h : font ≠ {}) :
    style.apply font = ⟨font.color <|> style.foreground, font.bold.getD style.bold⟩ := by
  simp [apply, Font.isReset, h]

theorem foreground_apply (h : font ≠ {}) : (style.apply font).foreground = style.foreground ∨
    ∃ color, font.color = some color ∧ (style.apply font).foreground = some color := by
  rw [apply_of_ne h]
  cases hcolor : font.color with
  | none => exact .inl rfl
  | some color => exact .inr ⟨color, rfl, rfl⟩

theorem bold_apply (h : font ≠ {}) : (style.apply font).bold = style.bold ∨
    font.bold = some (style.apply font).bold := by
  rw [apply_of_ne h]
  cases hbold : font.bold with
  | none => exact .inl rfl
  | some bold => exact .inr rfl

end Style

namespace Script

theorem readBool?_eq_some {value : String} {bold : Bool} :
    Builder.readBool? value = some bold ↔ value = if bold then "true" else "false" := by
  unfold Builder.readBool?
  cases bold <;> by_cases htrue : value = "true" <;> simp [htrue]

/-- A colour attribute of the tag has this colour. -/
def Tag.GivesColor (tag : Tag) (color : Color) : Prop :=
  ∃ a ∈ tag.attributes, a.name = "color" ∧ Color.read? a.value = some color

/-- A weight attribute of the tag has this truth value. -/
def Tag.GivesBold (tag : Tag) (bold : Bool) : Prop :=
  ∃ a ∈ tag.attributes, a.name = "bold" ∧ a.value = if bold then "true" else "false"

/-- The colour and the weight are as before, as far as the tag does not give others. -/
structure Tag.Keeps (tag : Tag) (before after : Style) : Prop where
  foreground : after.foreground = before.foreground ∨
    ∃ color, after.foreground = some color ∧ tag.GivesColor color
  bold : after.bold = before.bold ∨ tag.GivesBold after.bold

/-- **A font tag changes only what it sets.** It is read as one command, whose style a console
applies to its own. The colour stays as it was unless the tag has a valid one, and the weight unless
the tag gives it as true or false; but a tag that sets nothing, since no attribute that is the last
of its name has a valid value, restores the defaults. -/
theorem font_changes_what_it_sets {tag : Tag}
    (hname : Text.lowercase tag.name = TagKind.font.name) (place : Position) (b : Builder) :
    ∃ font, (b.readTag tag place).script.queue = (b.script.queue.enqueue (.font font)).2 ∧
      ∀ style : Style, (¬ tag.SetsNothing → tag.Keeps style (style.apply font)) ∧
        (tag.SetsNothing → style.apply font = {}) := by
  refine ⟨_, Builder.queue_readTag_font hname place b, fun style => ?_⟩
  rw [setsNothing_iff]
  refine ⟨fun hsome => ⟨?_, ?_⟩, fun hnothing => ?_⟩
  · refine (Style.foreground_apply hsome).imp_right ?_
    rintro ⟨color, hcolor, hafter⟩
    exact ⟨color, hafter, exists_of_lastSetting? hcolor⟩
  · refine (Style.bold_apply hsome).imp_right fun hbold => ?_
    obtain ⟨a, ha, hweight, hread⟩ := exists_of_lastSetting? hbold
    exact ⟨a, ha, hweight, readBool?_eq_some.mp hread⟩
  · rw [hnothing]
    rfl

/-- A font tag with a weight, and with a word in place of a colour. -/
def boldInRed : Tag := ⟨"Font", [⟨"color", "red"⟩, ⟨"bold", "true"⟩]⟩

theorem not_givesColor {tag : Tag}
    (h : ∀ a ∈ tag.attributes, a.name = "color" → Color.read? a.value = none) (color : Color) :
    ¬ tag.GivesColor color := by
  rintro ⟨a, ha, hname, hread⟩
  rw [h a ha hname] at hread
  cases hread

theorem font_changes_boldInRed :
    Text.lowercase boldInRed.name = TagKind.font.name ∧ ¬ boldInRed.SetsNothing ∧
      ∃ font, (Builder.readTag boldInRed {} {}).script.queue =
          (Queue.enqueue (.font font) {}).2 ∧
        ∀ style : Style, (style.apply font).foreground = style.foreground := by
  have hname : Text.lowercase boldInRed.name = TagKind.font.name := by decide
  have hsome : ¬ boldInRed.SetsNothing := by
    rw [setsNothing_iff]
    decide
  obtain ⟨font, hqueue, hkeeps⟩ := font_changes_what_it_sets hname {} {}
  refine ⟨hname, hsome, font, hqueue, fun style => ?_⟩
  refine ((hkeeps style).1 hsome).foreground.resolve_right ?_
  rintro ⟨color, -, hcolor⟩
  exact not_givesColor (by decide) color hcolor

/-- A font tag may change a colour and a weight that it does not give. -/
theorem not_font_changes_what_it_sets :
    ¬ ∀ (tag : Tag) (place : Position) (b : Builder),
      Text.lowercase tag.name = TagKind.font.name →
        ∃ font, (b.readTag tag place).script.queue = (b.script.queue.enqueue (.font font)).2 ∧
          ∀ style : Style, tag.Keeps style (style.apply font) := by
  intro hclaim
  let inRed : Tag := ⟨"font", [⟨"color", "red"⟩]⟩
  have hname : Text.lowercase inRed.name = TagKind.font.name := by decide
  obtain ⟨font, hqueue, hkeeps⟩ := hclaim inRed {} {} hname
  obtain rfl : font = {} := by
    have hread := hqueue.symm.trans (Builder.queue_readTag_font hname {} {})
    have hfont : some (Command.font font) = some (.font (Font.ofAttributes inRed.attributes)) :=
      congrArg (Queue.get? · 0) hread
    rw [Command.font.inj (Option.some.inj hfont)]
    decide
  have hstyle := (hkeeps ⟨some ⟨255, 0, 0⟩, true⟩).foreground
  rcases hstyle with hsame | ⟨color, -, hcolor⟩
  · cases hsame
  · exact not_givesColor (by decide) color hcolor

end Script
end NovelScript
