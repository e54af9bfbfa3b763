import Mathlib.Data.List.ProdSigma
import Mathlib.Tactic

namespace CrickerOs.Compositor

def SCREEN_W : ℕ := 128

def SCREEN_H : ℕ := 64

def i32 (n : ℤ) : Option ℤ := if -2 ^ 31 ≤ n ∧ n < 2 ^ 31 then some n else none

def asI32 (n : ℕ) : ℤ := if n < 2 ^ 31 then n else n - 2 ^ 32

structure Rect where
  x : ℤ
  y : ℤ
  w : ℕ
  h : ℕ
  deriving DecidableEq

namespace Rect

def EMPTY : Rect := ⟨0, 0, 0, 0⟩

def screen : Rect := ⟨0, 0, SCREEN_W, SCREEN_H⟩

def isEmpty (r : Rect) : Bool := r.w = 0 ∨ r.h = 0

def right (r : Rect) : Option ℤ := i32 (r.x + asI32 r.w)

def bottom (r : Rect) : Option ℤ := i32 (r.y + asI32 r.h)

def translate (r : Rect) (dx dy : ℤ) : Option Rect := do
  let x ← i32 (r.x + dx)
  let y ← i32 (r.y + dy)
  pure ⟨x, y, r.w, r.h⟩

def intersect (r o : Rect) : Option Rect :=
  if r.isEmpty ∨ o.isEmpty then some EMPTY
  else do
    let right := min (← r.right) (← o.right)
    let bottom := min (← r.bottom) (← o.bottom)
    let x := max r.x o.x
    let y := max r.y o.y
    if right ≤ x ∨ bottom ≤ y then pure EMPTY
    else pure ⟨x, y, (← i32 (right - x)).toNat, (← i32 (bottom - y)).toNat⟩

/-- The pixels of a rectangle, over the integers. -/
def Covers (r : Rect) (x y : ℤ) : Prop := r.x ≤ x ∧ x < r.x + r.w ∧ r.y ≤ y ∧ y < r.y + r.h

instance (r : Rect) (x y : ℤ) : Decidable (r.Covers x y) := inferInstanceAs (Decidable (_ ∧ _))

/-- A rectangle whose edges are 32-bit numbers. -/
structure Sane (r : Rect) : Prop where
  left : -2 ^ 31 ≤ r.x
  top : -2 ^ 31 ≤ r.y
  width : r.w < 2 ^ 31
  height : r.h < 2 ^ 31
  right : r.x + r.w < 2 ^ 31
  bottom : r.y + r.h < 2 ^ 31

/-- The values that four 32-bit words have. -/
structure Words (r : Rect) : Prop where
  left : -2 ^ 31 ≤ r.x ∧ r.x < 2 ^ 31
  top : -2 ^ 31 ≤ r.y ∧ r.y < 2 ^ 31
  width : r.w < 2 ^ 32
  height : r.h < 2 ^ 32

/-- Neither of the two sums overflows. A width from 2 ^ 31 on is added as a negative number. -/
def EdgesFit (r : Rect) : Prop := (r.w < 2 ^ 31 ↔ r.x + r.w < 2 ^ 31) ∧ (r.h < 2 ^ 31 ↔ r.y + r.h < 2 ^ 31)

variable {r o : Rect} {x y : ℤ}

lemma i32_eq (h : -2 ^ 31 ≤ x) (h' : x < 2 ^ 31) : i32 x = some x := if_pos ⟨h, h'⟩

lemma Sane.right_eq (hr : r.Sane) : r.right = some (r.x + r.w) := by
  obtain ⟨hl, -, hw, -, hright, -⟩ := hr
  rw [Rect.right, asI32, if_pos hw, i32_eq (by omega) hright]

lemma Sane.bottom_eq (hr : r.Sane) : r.bottom = some (r.y + r.h) := by
  obtain ⟨-, ht, -, hh, -, hbottom⟩ := hr
  rw [Rect.bottom, asI32, if_pos hh, i32_eq (by omega) hbottom]

lemma not_covers_of_isEmpty (h : r.isEmpty = true) : ¬ r.Covers x y := by
  simp only [isEmpty, decide_eq_true_eq] at h
  unfold Covers
  omega

lemma sane_empty : EMPTY.Sane := by constructor <;> simp [EMPTY]

lemma sane_screen : screen.Sane := by constructor <;> simp [screen, SCREEN_W, SCREEN_H]

/-- Clipping never overflows, and is the intersection. -/
lemma intersect_run (hr : r.Sane) (ho : o.Sane) :
    ∃ s, r.intersect o = some s ∧ s.Sane ∧ (s.isEmpty = true → s = EMPTY) ∧
      ∀ x y, s.Covers x y ↔ r.Covers x y ∧ o.Covers x y := by
  have hnone : ∀ {x y}, ¬ EMPTY.Covers x y := fun h => not_covers_of_isEmpty rfl h
  by_cases hempty : r.isEmpty ∨ o.isEmpty
  · refine ⟨EMPTY, if_pos hempty, sane_empty, fun _ => rfl, fun x y => ⟨fun h => absurd h hnone, fun h => ?_⟩⟩
    rcases hempty with he | he
    · exact absurd h.1 (not_covers_of_isEmpty he)
    · exact absurd h.2 (not_covers_of_isEmpty he)
  rw [intersect, if_neg hempty, hr.right_eq, ho.right_eq, hr.bottom_eq, ho.bottom_eq]
  dsimp only [Option.bind_eq_bind, Option.bind_some]
  split_ifs with hout
  · refine ⟨EMPTY, rfl, sane_empty, fun _ => rfl, fun x y => ⟨fun h => absurd h hnone, fun h => ?_⟩⟩
    unfold Covers at h
    omega
  · obtain ⟨hl, ht, hw, hh, hright, hbottom⟩ := hr
    obtain ⟨hl', ht', hw', hh', hright', hbottom'⟩ := ho
    rw [i32_eq (by omega) (by omega), i32_eq (by omega) (by omega)]
    refine ⟨_, rfl, by constructor <;> dsimp only <;> omega, fun h => ?_, fun x y => ?_⟩
    · simp only [isEmpty, decide_eq_true_eq] at h
      omega
    · unfold Covers
      dsimp only
      omega

/-- A width or height that reads as negative leaves nothing. -/
lemma intersect_of_wide (hr : r.Words) (ho : o.Sane) (hfit : r.EdgesFit)
    (hwide : ¬ (r.w < 2 ^ 31 ∧ r.h < 2 ^ 31)) : r.intersect o = some EMPTY := by
  by_cases hempty : r.isEmpty ∨ o.isEmpty
  · exact if_pos hempty
  obtain ⟨⟨hl, hl'⟩, ⟨ht, ht'⟩, hw, hh⟩ := hr
  obtain ⟨hx, hy⟩ := hfit
  have hright : r.right = some (r.x + asI32 r.w) := i32_eq (by unfold asI32; split_ifs <;> omega)
    (by unfold asI32; split_ifs <;> omega)
  have hbottom : r.bottom = some (r.y + asI32 r.h) := i32_eq (by unfold asI32; split_ifs <;> omega)
    (by unfold asI32; split_ifs <;> omega)
  rw [intersect, if_neg hempty, hright, ho.right_eq, hbottom, ho.bottom_eq]
  dsimp only [Option.bind_eq_bind, Option.bind_some]
  rw [if_pos]
  · rfl
  · unfold asI32
    split_ifs <;> omega

lemma intersect_of_not_edgesFit (hr : r.Words) (hempty : ¬ (r.isEmpty ∨ o.isEmpty)) (hfit : ¬ r.EdgesFit) :
    r.intersect o = none := by
  obtain ⟨⟨hl, hl'⟩, ⟨ht, ht'⟩, hw, hh⟩ := hr
  have hedge : r.right = none ∨ r.bottom = none := by
    rw [EdgesFit, not_and_or] at hfit
    refine hfit.imp (fun hx => if_neg ?_) (fun hy => if_neg ?_) <;> unfold asI32 <;> split_ifs <;> omega
  rw [intersect, if_neg hempty]
  rcases hedge with he | he <;> simp [he]

lemma translate_run {dx dy : ℤ} (hx : -2 ^ 31 ≤ r.x + dx ∧ r.x + dx < 2 ^ 31)
    (hy : -2 ^ 31 ≤ r.y + dy ∧ r.y + dy < 2 ^ 31) : r.translate dx dy = some ⟨r.x + dx, r.y + dy, r.w, r.h⟩ := by
  rw [translate, i32_eq hx.1 hx.2, i32_eq hy.1 hy.2]
  rfl

lemma covers_corners (h : r.isEmpty = false) : r.Covers r.x r.y ∧ r.Covers (r.x + r.w - 1) (r.y + r.h - 1) := by
  simp only [isEmpty, decide_eq_false_iff_not] at h
  unfold Covers
  omega

lemma eq_of_covers (hr : r.isEmpty = false) (h : ∀ x y, o.Covers x y ↔ r.Covers x y) : o = r := by
  obtain ⟨hfirst, hlast⟩ := covers_corners hr
  have h₁ := (h _ _).mpr hfirst
  have h₂ := (h _ _).mpr hlast
  have ho : o.isEmpty = false := Bool.eq_false_iff.mpr fun he => not_covers_of_isEmpty he h₁
  obtain ⟨hfirst', hlast'⟩ := covers_corners ho
  have h₃ := (h _ _).mp hfirst'
  have h₄ := (h _ _).mp hlast'
  obtain ⟨x, y, w, h⟩ := o
  obtain ⟨x', y', w', h'⟩ := r
  unfold Covers at h₁ h₂ h₃ h₄
  dsimp only at h₁ h₂ h₃ h₄
  simp only [mk.injEq]
  omega

end Rect

structure Window where
  originX : ℤ
  originY : ℤ
  w : ℕ
  h : ℕ

def Window.rect (win : Window) : Rect := ⟨win.originX, win.originY, win.w, win.h⟩

def Window.bounds (win : Window) : Rect := ⟨0, 0, win.w, win.h⟩

def SCENE : List Window := [⟨8, 8, 64, 32⟩, ⟨40, 24, 48, 24⟩, ⟨-8, 30, 40, 40⟩]

lemma scene_sane : ∀ win ∈ SCENE, win.rect.Sane := by
  intro win hwin
  fin_cases hwin <;> constructor <;> decide

section

def damageToScreen (win : Window) (damage : Rect) : Option Rect := do
  let inside ← damage.intersect win.bounds
  let placed ← inside.translate win.originX win.originY
  placed.intersect .screen

inductive Feedback
  | ok
  | clipped
  deriving DecidableEq, Repr

/-- The words that a client leaves in its control page. -/
def asked (x y w h : UInt32) : Rect := ⟨asI32 x.toNat, asI32 y.toNat, w.toNat, h.toNat⟩

/-- What a commit tells the client, and the damage that it adds to the screen's. -/
def commit (win : Window) (x y w h : UInt32) : Option (Feedback × Rect) := do
  let inside ← (asked x y w h).intersect win.bounds
  let damage ← damageToScreen win (asked x y w h)
  pure (if inside = asked x y w h then .ok else .clipped, damage)

/-- The pixels of the screen that a client's damage covers, over the integers. -/
def Window.Visible (win : Window) (d : Rect) (px py : ℤ) : Prop :=
  d.Covers (px - win.originX) (py - win.originY) ∧ win.bounds.Covers (px - win.originX) (py - win.originY) ∧
    Rect.screen.Covers px py

/-- The damage is what is visible, and the client is told when its rectangle leaves its surface. -/
def Window.Clips (win : Window) (d : Rect) (feedback : Feedback) (damage : Rect) : Prop :=
  (∀ px py, damage.Covers px py ↔ win.Visible d px py) ∧
    (feedback = .clipped ↔ ¬ ∀ px py, d.Covers px py → win.bounds.Covers px py)

variable {win : Window} {d : Rect} {x y w h : UInt32}

lemma asI32_words (n : UInt32) : -2 ^ 31 ≤ asI32 n.toNat ∧ asI32 n.toNat < 2 ^ 31 := by
  have hn := n.toNat_lt
  unfold asI32
  split_ifs <;> omega

lemma asked_words : (asked x y w h).Words := ⟨asI32_words x, asI32_words y, w.toNat_lt, h.toNat_lt⟩

lemma sane_bounds (hwin : win.rect.Sane) : win.bounds.Sane := by
  obtain ⟨-, -, hw, hh, -, -⟩ := hwin
  constructor <;> simp_all [Window.bounds, Window.rect]

lemma damageToScreen_run (hwin : win.rect.Sane) (hd : d.Sane) :
    ∃ s, damageToScreen win d = some s ∧ ∀ x y, s.Covers x y ↔ win.Visible d x y := by
  obtain ⟨inside, hinside, hsane, hempty, hcovers⟩ := Rect.intersect_run hd (sane_bounds hwin)
  obtain ⟨hl, ht, hw, hh, hright, hbottom⟩ := hwin
  dsimp only [Window.rect] at hl ht hw hh hright hbottom
  have hin : 0 ≤ inside.x ∧ inside.x + inside.w ≤ win.w ∧ 0 ≤ inside.y ∧ inside.y + inside.h ≤ win.h := by
    cases he : inside.isEmpty with
    | true => simp [hempty he, Rect.EMPTY]
    | false =>
      obtain ⟨hfirst, hlast⟩ := Rect.covers_corners he
      have h₁ := ((hcovers _ _).mp hfirst).2
      have h₂ := ((hcovers _ _).mp hlast).2
      dsimp only [Rect.Covers, Window.bounds] at h₁ h₂
      omega
  have hplaced : inside.translate win.originX win.originY = some _ := Rect.translate_run (by omega) (by omega)
  obtain ⟨s, hs, -, -, hscreen⟩ := Rect.intersect_run (r := ⟨inside.x + win.originX, inside.y + win.originY,
    inside.w, inside.h⟩) ⟨by dsimp only; omega, by dsimp only; omega, hsane.width, hsane.height,
    by dsimp only; omega, by dsimp only; omega⟩ Rect.sane_screen
  refine ⟨s, ?_, ?_⟩
  · rw [damageToScreen, hinside]
    dsimp only [Option.bind_eq_bind, Option.bind_some]
    rw [hplaced]
    exact hs
  intro x y
  rw [hscreen, Window.Visible, ← and_assoc, ← hcovers]
  unfold Rect.Covers
  dsimp only
  omega

lemma commit_of_sane (hwin : win.rect.Sane) (hasked : (asked x y w h).Sane)
    (hne : (asked x y w h).isEmpty = false) : ∃ feedback damage, commit win x y w h = some (feedback, damage) ∧
      win.Clips (asked x y w h) feedback damage := by
  obtain ⟨damage, hdamage, hexact⟩ := damageToScreen_run hwin hasked
  obtain ⟨inside, hinside, -, hempty, hcovers⟩ := Rect.intersect_run hasked (sane_bounds hwin)
  refine ⟨_, damage, by rw [commit, hinside, hdamage]; rfl, hexact, ?_⟩
  generalize asked x y w h = d at *
  have hiff : inside = d ↔ ∀ px py, d.Covers px py → win.bounds.Covers px py := by
    refine ⟨fun heq px py hp => ((hcovers px py).mp (heq ▸ hp)).2, fun hall => ?_⟩
    have hsame : ∀ px py, inside.Covers px py ↔ d.Covers px py := fun px py =>
      (hcovers px py).trans ⟨And.left, fun hp => ⟨hp, hall px py hp⟩⟩
    exact Rect.eq_of_covers hne hsame
  rw [← hiff]
  split_ifs with heq <;> simp [heq]

/-- Where nothing is left of the rectangle, the client is told so unless it wrote the empty rectangle itself. -/
lemma commit_of_nothing_inside (hwin : win.rect.Sane) (hinside : (asked x y w h).intersect win.bounds =
    some .EMPTY) : commit win x y w h = some (if .EMPTY = asked x y w h then .ok else .clipped, .EMPTY) := by
  obtain ⟨hl, ht, hw, hh, hright, hbottom⟩ := hwin
  dsimp only [Window.rect] at hl ht hw hh hright hbottom
  have hplaced : Rect.EMPTY.translate win.originX win.originY = some _ :=
    Rect.translate_run (by dsimp only [Rect.EMPTY]; omega) (by dsimp only [Rect.EMPTY]; omega)
  have hdamage : damageToScreen win (asked x y w h) = some .EMPTY := by
    rw [damageToScreen, hinside]
    dsimp only [Option.bind_eq_bind, Option.bind_some]
    rw [hplaced, Option.bind_some]
    exact if_pos (Or.inl rfl)
  rw [commit, hinside, hdamage]
  rfl

lemma exists_clips_iff {feedback : Feedback} {damage : Rect} :
    (∃ f r, some (feedback, damage) = some (f, r) ∧ win.Clips d f r) ↔ win.Clips d feedback damage := by
  simp

lemma clips_empty_iff {feedback : Feedback} : win.Clips d feedback .EMPTY ↔ (∀ px py, ¬ win.Visible d px py) ∧
    (feedback = .clipped ↔ ¬ ∀ px py, d.Covers px py → win.bounds.Covers px py) :=
  and_congr_left' (forall₂_congr fun _ _ => iff_comm.trans (iff_false_right (Rect.not_covers_of_isEmpty rfl)))

lemma not_inside_of_wide (hwin : win.rect.Sane) (hd : d.isEmpty = false)
    (hwide : ¬ (d.w < 2 ^ 31 ∧ d.h < 2 ^ 31)) : ¬ ∀ px py, d.Covers px py → win.bounds.Covers px py := by
  intro hall
  obtain ⟨hfirst, hlast⟩ := Rect.covers_corners hd
  obtain ⟨-, -, hw, hh, -, -⟩ := hwin
  have h₁ := hall _ _ hfirst
  have h₂ := hall _ _ hlast
  dsimp only [Rect.Covers, Window.bounds, Window.rect] at h₁ h₂ hw hh
  omega

/-- A commit adds the pixels that are visible of the client's rectangle, and tells the client when the rectangle
leaves its surface, if and only if the rectangle is the one of four zeros, or is not empty, the sums of its edges
do not overflow, and it is narrower than 2 ^ 31 both ways or shows nothing. -/
theorem damage_is_clipped_exactly (win : Window) (x y w h : UInt32) (hwin : win.rect.Sane) :
    (∃ feedback damage, commit win x y w h = some (feedback, damage) ∧ win.Clips (asked x y w h) feedback damage) ↔
    asked x y w h = .EMPTY ∨ (asked x y w h).isEmpty = false ∧
      (win.bounds.isEmpty = true ∨ (asked x y w h).EdgesFit ∧
        (w.toNat < 2 ^ 31 ∧ h.toNat < 2 ^ 31 ∨ ∀ px py, ¬ win.Visible (asked x y w h) px py)) := by
  have hwords : (asked x y w h).Words := asked_words
  have hnothing := commit_of_nothing_inside (x := x) (y := y) (w := w) (h := h) hwin
  cases hempty : (asked x y w h).isEmpty with
  | true =>
    have hcovers : ∀ px py, ¬ (asked x y w h).Covers px py := fun px py => Rect.not_covers_of_isEmpty hempty
    rw [hnothing (if_pos (Or.inl hempty)), exists_clips_iff, clips_empty_iff]
    simp [Window.Visible, hcovers, eq_comm (a := Rect.EMPTY)]
  | false =>
    have hne : asked x y w h ≠ .EMPTY := fun heq => by simp [heq, Rect.isEmpty, Rect.EMPTY] at hempty
    obtain ⟨hfirst, -⟩ := Rect.covers_corners hempty
    simp only [hne, false_or, true_and]
    by_cases hbounds : win.bounds.isEmpty = true
    · have hcovers : ∀ px py, ¬ win.bounds.Covers px py := fun px py => Rect.not_covers_of_isEmpty hbounds
      rw [hnothing (if_pos (Or.inr hbounds)), exists_clips_iff, clips_empty_iff, if_neg hne.symm]
      simp only [Window.Visible, hcovers, hbounds, false_and, and_false, not_false_iff, implies_true, true_and,
        true_or, iff_true]
      exact ⟨fun _ hall => hall _ _ hfirst, fun _ => trivial⟩
    rw [or_iff_right hbounds]
    by_cases hfit : (asked x y w h).EdgesFit
    · simp only [hfit, true_and]
      by_cases hnarrow : w.toNat < 2 ^ 31 ∧ h.toNat < 2 ^ 31
      · have hsane : (asked x y w h).Sane :=
          ⟨hwords.left.1, hwords.top.1, hnarrow.1, hnarrow.2, hfit.1.mp hnarrow.1, hfit.2.mp hnarrow.2⟩
        simp only [commit_of_sane hwin hsane hempty, hnarrow, and_self, true_or]
      · rw [hnothing (Rect.intersect_of_wide hwords (sane_bounds hwin) hfit hnarrow), exists_clips_iff,
          clips_empty_iff, if_neg hne.symm]
        rw [or_iff_right hnarrow]
        simp [not_inside_of_wide hwin hempty hnarrow]
    · have hpanics : commit win x y w h = none := by
        rw [commit, Rect.intersect_of_not_edgesFit hwords (by simp [hempty, hbounds]) hfit]
        rfl
      simp [hpanics, hfit]

/-- The first rectangle overflows; the second covers the surface's first row, and nothing of it is repaired; the
third covers nothing, and is said to be clipped. -/
theorem hostile_damage_is_not_clipped : commit ⟨8, 8, 64, 32⟩ 0x7fffffff 0 1 1 = none ∧
    commit ⟨8, 8, 64, 32⟩ 0 0 0x80000000 1 = some (.clipped, .EMPTY) ∧ (asked 0 0 0x80000000 1).Covers 0 0 ∧
    commit ⟨8, 8, 64, 32⟩ 5 5 0 3 = some (.clipped, .EMPTY) := by
  decide

theorem damage_of_the_last_window : ∃ feedback damage, commit ⟨-8, 30, 40, 40⟩ 4 5 9 7 = some (feedback, damage) ∧
    Window.Clips ⟨-8, 30, 40, 40⟩ (asked 4 5 9 7) feedback damage :=
  (damage_is_clipped_exactly ⟨-8, 30, 40, 40⟩ 4 5 9 7 (scene_sane _ (by simp [SCENE]))).mpr
    (Or.inr ⟨rfl, Or.inr ⟨⟨by decide, by decide⟩, Or.inl ⟨by decide, by decide⟩⟩⟩)

end

end CrickerOs.Compositor
