import AnimeFeedFlux.Schedule.Anchors

/-!
# Recurrences on the wire

`recurrence_conv.go`: a recurrence between the words a recipe stores and the message that carries
it.  The message has enumerations for the frequency and the weekdays, 32 bits for each number and
a `Timestamp` for the anchor.  `Resolve` reads a frequency or a weekday in any case and with
blanks around it; the tables here hold the plain spelling only.
-/

namespace AnimeFeedFlux

open List

/-- The conversion `int32(n)` of Go. -/
def int32 (n : ℤ) : ℤ := n.bmod (2 ^ 32)

theorem int32_eq_self {n : ℤ} : int32 n = n ↔ -2147483648 ≤ n ∧ n < 2147483648 := by
  rw [int32, Int.bmod_def]
  omega

theorem int32_bounds (n : ℤ) : -2147483648 ≤ int32 n ∧ int32 n < 2147483648 := by
  rw [int32, Int.bmod_def]
  omega

@[simp] theorem int32_int32 (n : ℤ) : int32 (int32 n) = int32 n := Int.bmod_bmod

namespace Affv1

inductive Frequency
  | unspecified
  | daily
  | weekly
  | monthly
  deriving DecidableEq, Repr

inductive Weekday
  | unspecified
  | sunday
  | monday
  | tuesday
  | wednesday
  | thursday
  | friday
  | saturday
  deriving DecidableEq, Repr

/-- `Recurrence`.  A `Timestamp` is its seconds from the zero Time; those of an anchor have no
fraction. -/
structure Recurrence where
  frequency : Frequency
  interval : ℤ
  weekdays : List Weekday
  monthDay : ℤ
  setPosition : ℤ
  hour : ℤ
  minute : ℤ
  anchor : Option ℤ
  deriving DecidableEq, Repr

/-- `Timestamp.IsValid`: the years 1 to 9999. -/
def isValid (seconds : ℤ) : Bool := 0 ≤ seconds && seconds ≤ 315537897599

end Affv1

open Cron GoStrings

/-! ## The converters -/

def protoWeekdays : List (Affv1.Weekday × String) :=
  [(.sunday, "sunday"), (.monday, "monday"), (.tuesday, "tuesday"), (.wednesday, "wednesday"),
    (.thursday, "thursday"), (.friday, "friday"), (.saturday, "saturday")]

def weekdayProtos : List (String × Affv1.Weekday) := protoWeekdays.map Prod.swap

def protoFrequencies : List (Affv1.Frequency × String) :=
  [(.daily, "daily"), (.weekly, "weekly"), (.monthly, "monthly")]

def frequencyProtos : List (String × Affv1.Frequency) := protoFrequencies.map Prod.swap

/-- The anchor of `recurrenceFromProto`, and of `DraftFromProto`. -/
def anchorFromProto : Option ℤ → String
  | none => ""
  | some seconds => if Affv1.isValid seconds then anchorText (seconds / 86400) else ""

def recurrenceFromProto : Option Affv1.Recurrence → Option Written
  | none => none
  | some pr =>
    (protoFrequencies.lookup pr.frequency).map fun frequency =>
      { frequency, interval := pr.interval
        weekdays := pr.weekdays.filterMap (protoWeekdays.lookup ·)
        monthDay := pr.monthDay, setPosition := pr.setPosition, hour := pr.hour
        minute := pr.minute, anchor := anchorFromProto pr.anchor }

/-- The anchor of `recurrenceToProto`, and of `ToProto`. -/
def anchorToProto (anchor : String) : Option ℤ :=
  if anchor ≠ "" then (parseAnchor anchor).map (86400 * ·) else none

def recurrenceToProto : Option Written → Option Affv1.Recurrence
  | none => none
  | some r =>
    some
      { frequency := (frequencyProtos.lookup r.frequency).getD .unspecified
        interval := int32 r.interval
        weekdays := r.weekdays.filterMap (weekdayProtos.lookup ·)
        monthDay := int32 r.monthDay, setPosition := int32 r.setPosition
        hour := int32 r.hour, minute := int32 r.minute, anchor := anchorToProto r.anchor }

/-! ## There and back -/

/-- A frequency in its plain spelling. -/
def PlainFrequency (name : String) : Prop := name ∈ frequencyNames.map Prod.fst
deriving Decidable

/-- A weekday in its plain spelling. -/
def PlainWeekday (name : String) : Prop := name ∈ weekdayNames.map Prod.fst
deriving Decidable

/-- What comes back of a recurrence whose frequency has the plain spelling. -/
def resent (r : Written) : Written :=
  { frequency := r.frequency, interval := int32 r.interval
    weekdays := r.weekdays.filter (PlainWeekday ·), monthDay := int32 r.monthDay
    setPosition := int32 r.setPosition, hour := int32 r.hour, minute := int32 r.minute
    anchor := anchorFromProto (anchorToProto r.anchor) }

variable {name : String}

theorem lookup_weekdayProtos_of_not_plain (h : ¬PlainWeekday name) :
    weekdayProtos.lookup name = none := by
  rw [lookup_eq_none_iff]
  intro p hp
  have hplain : ∀ p ∈ weekdayProtos, PlainWeekday p.1 := by decide
  rw [bne_iff_ne]
  rintro rfl
  exact h (hplain p hp)

theorem lookup_weekday (name : String) : (weekdayProtos.lookup name).bind (protoWeekdays.lookup ·) =
      Option.guard (PlainWeekday ·) name := by
  by_cases h : PlainWeekday name
  · have hnames : ∀ p ∈ weekdayNames, (weekdayProtos.lookup p.1).bind (protoWeekdays.lookup ·) =
        some p.1 := by
      decide
    obtain ⟨p, hp, rfl⟩ := mem_map.1 h
    rw [hnames p hp, Option.guard_pos (by simpa using h)]
  · simp [lookup_weekdayProtos_of_not_plain h, Option.guard, h]

theorem lookup_frequency_of_not_plain (h : ¬PlainFrequency name) :
    (frequencyProtos.lookup name).getD .unspecified = .unspecified := by
  have hnone : frequencyProtos.lookup name = none := by
    rw [lookup_eq_none_iff]
    intro p hp
    have hplain : ∀ p ∈ frequencyProtos, PlainFrequency p.1 := by decide
    rw [bne_iff_ne]
    rintro rfl
    exact h (hplain p hp)
  rw [hnone, Option.getD_none]

theorem lookup_frequency (h : PlainFrequency name) :
    protoFrequencies.lookup ((frequencyProtos.lookup name).getD .unspecified) = some name := by
  have hnames : ∀ p ∈ frequencyNames,
      protoFrequencies.lookup ((frequencyProtos.lookup p.1).getD .unspecified) = some p.1 := by
    decide
  obtain ⟨p, hp, rfl⟩ := mem_map.1 h
  exact hnames p hp

/-- **What comes back of a recurrence.** -/
theorem recurrenceFromProto_toProto (r : Written) :
    recurrenceFromProto (recurrenceToProto (some r)) =
      if PlainFrequency r.frequency then some (resent r) else none := by
  simp only [recurrenceToProto, recurrenceFromProto]
  split
  · rename_i h
    rw [lookup_frequency h, Option.map_some]
    simp only [filterMap_filterMap, lookup_weekday, filterMap_eq_filter]
    rfl
  · rename_i h
    rw [lookup_frequency_of_not_plain h]
    rfl

/-! ## Whether it still resolves -/

section
variable {locale : Cron.Locale} {r : Written} {tz : String}

theorem lower_of_mem {c : Char} (hascii : locale.Ascii) (h : 97 ≤ c.toNat ∧ c.toNat ≤ 122) :
    locale.lower c = c := by
  have htoNat : c.val.toNat = c.toNat := rfl
  rw [hascii c (by omega)]
  delta Char.toLower
  rw [dif_neg]
  rintro ⟨-, hle⟩
  have := UInt32.le_iff_toNat_le.1 hle
  simp at this
  omega

theorem normal_of_letters (hascii : locale.Ascii) {s : String}
    (h : s.toList.all (fun c => decide (97 ≤ c.toNat ∧ c.toNat ≤ 122)) = true) :
    toLower locale.lower (trimSpace s) = s := by
  simp only [all_eq_true, decide_eq_true_eq] at h
  rw [trimSpace_eq_self, toLower_eq_self]
  · exact fun c hc => lower_of_mem hascii (h c hc)
  intro c hc
  have := h c hc
  simp [isSpace]
  omega

variable {name : String} {freq : Frequency} {loc : Zone}

theorem normal_of_plainWeekday (hascii : locale.Ascii) (h : PlainWeekday name) :
    toLower locale.lower (trimSpace name) = name := by
  have hletters : (weekdayNames.map Prod.fst).all
      (fun s => s.toList.all (fun c => decide (97 ≤ c.toNat ∧ c.toNat ≤ 122))) = true := by
    decide
  exact normal_of_letters hascii (all_eq_true.1 hletters name h)

theorem normal_of_plainFrequency (hascii : locale.Ascii) (h : PlainFrequency name) :
    toLower locale.lower (trimSpace name) = name := by
  have hletters : (frequencyNames.map Prod.fst).all
      (fun s => s.toList.all (fun c => decide (97 ≤ c.toNat ∧ c.toNat ≤ 122))) = true := by
    decide
  exact normal_of_letters hascii (all_eq_true.1 hletters name h)

theorem exists_resolveAnchor_resent (locale : Cron.Locale) (loc : Zone) (anchor : String) :
    ∃ t, resolveAnchor locale loc (anchorFromProto (anchorToProto anchor)) = .ok t := by
  have hempty : ∃ t, resolveAnchor locale loc "" = .ok t := ⟨0, rfl⟩
  rw [anchorToProto]
  split
  · cases hday : parseAnchor anchor with
    | none => exact hempty
    | some d =>
      obtain ⟨h0, h1⟩ := year_of_parseAnchor hday
      rw [Option.map_some, anchorFromProto]
      split
      · rw [Int.mul_ediv_cancel_left d (by decide), resolveAnchor, trimSpace_anchorText,
          if_neg (anchorText_ne_empty d), parseAnchor_anchorText h0 h1]
        exact ⟨_, rfl⟩
      · exact hempty
  · exact hempty

theorem exists_forall₂_filter {α β : Type} {R : α → β → Prop} {p : α → Bool} {l : List α}
    {m : List β} (h : List.Forall₂ R l m) :
    ∃ m', List.Forall₂ R (l.filter p) m' ∧ m'.Sublist m := by
  induction h with
  | nil => exact ⟨[], .nil, .slnil⟩
  | @cons a b l m hab _ ih =>
    obtain ⟨m', hm', hsub⟩ := ih
    by_cases ha : p a = true
    · exact ⟨b :: m', by rw [filter_cons_of_pos ha]; exact .cons hab hm', hsub.cons_cons b⟩
    · exact ⟨m', by rw [filter_cons_of_neg ha]; exact hm', hsub.cons b⟩

/-- The recurrence needs a weekday. -/
def NeedsWeekday (r : Written) : Prop :=
  r.frequency = "weekly" ∨ r.frequency = "monthly" ∧ r.setPosition ≠ 0
deriving Decidable

theorem int32_eq_of_bounded {days : List ℤ} {anchor : ℤ}
    (h : (r.rule freq days anchor loc).Bounded) :
    int32 r.hour = r.hour ∧ int32 r.minute = r.minute := by
  obtain ⟨hh, hh'⟩ : 0 ≤ r.hour ∧ r.hour ≤ 23 := h.hour
  obtain ⟨hm, hm'⟩ : 0 ≤ r.minute ∧ r.minute ≤ 59 := h.minute
  exact ⟨int32_eq_self.2 (by omega), int32_eq_self.2 (by omega)⟩

theorem frequency_cases (hplain : PlainFrequency name)
    (h : frequencyNames.lookup name = some freq) :
    name = "daily" ∧ freq = .daily ∨ name = "weekly" ∧ freq = .weekly ∨
      name = "monthly" ∧ freq = .monthly := by
  simp only [PlainFrequency, frequencyNames, map_cons, map_nil, mem_cons,
    not_mem_nil, or_false] at hplain
  rcases hplain with rfl | rfl | rfl
  · exact .inl ⟨rfl, (Option.some.inj h).symm⟩
  · exact .inr (.inl ⟨rfl, (Option.some.inj h).symm⟩)
  · exact .inr (.inr ⟨rfl, (Option.some.inj h).symm⟩)

theorem checkFreq_resent_iff {days days' : List ℤ} {anchor anchor' : ℤ}
    (hplain : PlainFrequency r.frequency) (hfreq : frequencyNames.lookup r.frequency = some freq)
    (hbounded : (r.rule freq days anchor loc).Bounded) (hsub : days'.Sublist days) :
    ((resent r).rule freq days' anchor' loc).checkFreq = none ↔ (NeedsWeekday r → days' ≠ []) := by
  have hvalid : validWeekdays days = none → validWeekdays days' = none := by
    simp only [validWeekdays_eq_none]
    exact fun hd => ⟨fun d hmem => hd.1 d (hsub.subset hmem), hd.2.sublist hsub⟩
  have hchecked := Rule.checkFreq_eq_none.1 hbounded.freq
  rw [Rule.checkFreq_eq_none]
  rcases frequency_cases hplain hfreq with ⟨hname, rfl⟩ | ⟨hname, rfl⟩ | ⟨hname, rfl⟩
  · simp [Written.rule, NeedsWeekday, hname]
  · have hneeds : NeedsWeekday r := .inl hname
    simp only [Written.rule] at hchecked ⊢
    exact ⟨fun h' _ => h'.1, fun h' => ⟨h' hneeds, hvalid hchecked.2⟩⟩
  · simp only [Written.rule, resent] at hchecked ⊢
    by_cases hpos : r.setPosition = 0
    · have hmonthDay := hchecked.2 hpos
      have hday : int32 r.monthDay = r.monthDay := int32_eq_self.2 (by omega)
      have hzero : int32 0 = 0 := by decide
      have hneeds : ¬NeedsWeekday r := by simp [NeedsWeekday, hname, hpos]
      rw [hpos, hday, hzero]
      exact iff_of_true ⟨fun h0 => absurd rfl h0, fun _ => hmonthDay⟩ fun hn => absurd hn hneeds
    · obtain ⟨hrange, hlen, hdays⟩ := hchecked.1 hpos
      have hneeds : NeedsWeekday r := .inr ⟨hname, hpos⟩
      have hposition : int32 r.setPosition = r.setPosition := int32_eq_self.2 (by omega)
      have hle : days'.length ≤ 1 := hlen ▸ hsub.length_le
      rw [hposition, ← length_pos_iff]
      constructor
      · intro h' _
        have := (h'.1 hpos).2.1
        omega
      · intro h'
        have := h' hneeds
        exact ⟨fun _ => ⟨hrange, by omega, hvalid hdays⟩, fun h0 => absurd h0 hpos⟩

/-- **A recurrence that resolves still does when it comes back**, if its interval has not become
negative or zero and a weekday that it needs has the plain spelling. -/
theorem exists_resolve_resent_iff (hascii : locale.Ascii) {s : Recurrence}
    (h : resolve locale r tz = .ok s) (hplain : PlainFrequency r.frequency) :
    (∃ s', resolve locale (resent r) tz = .ok s') ↔
      1 ≤ int32 r.interval ∧ (NeedsWeekday r → ∃ name ∈ r.weekdays, PlainWeekday name) := by
  obtain ⟨loc, freq, days, anchor, hloc, hfreq, hdays, hanchor, -⟩ := resolve_ok_iff.1 h
  have hbounded := (exists_resolve_iff_bounded hloc hfreq hdays hanchor).1 ⟨s, h⟩
  obtain ⟨days', hdays', hsub⟩ :=
    exists_forall₂_filter (p := (PlainWeekday ·)) (resolveWeekdays_ok_iff.1 hdays)
  obtain ⟨anchor', hanchor'⟩ := exists_resolveAnchor_resent locale loc r.anchor
  obtain ⟨hhour, hminute⟩ := int32_eq_of_bounded hbounded
  have hempty : days' ≠ [] ↔ ∃ name ∈ r.weekdays, PlainWeekday name := by
    rw [← length_pos_iff, ← hdays'.length_eq, length_pos_iff, ne_eq, filter_eq_nil_iff]
    simp
  have hresolve : (∃ s', resolve locale (resent r) tz = .ok s') ↔
      ((resent r).rule freq days' anchor' loc).Bounded :=
    exists_resolve_iff_bounded hloc hfreq (resolveWeekdays_ok_iff.2 hdays') hanchor'
  rw [normal_of_plainFrequency hascii hplain] at hfreq
  rw [hresolve, ← hempty, ← checkFreq_resent_iff hplain hfreq hbounded hsub]
  constructor
  · exact fun hb => ⟨hb.interval, hb.freq⟩
  rintro ⟨hinterval, hfreq'⟩
  refine ⟨hinterval, ?_, ?_, hfreq'⟩
  · simpa only [Written.rule, resent, hhour] using hbounded.hour
  · simpa only [Written.rule, resent, hminute] using hbounded.minute

end

end AnimeFeedFlux
