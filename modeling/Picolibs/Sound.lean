import Picolibs.Loop
/-!
# Sound — the sound engine between its calls and its interrupt (`sound.cpp`)

A call is a list of statements, and the wrap interrupt of the PWM comes between any two of them while it is enabled;
`wait` goes on once it is disabled.  The interrupt plays samples, a tone or a beep, by `count_` and `tone_p_`.

Levels and the samples themselves are left out: nothing but the output depends on them.  Whether the PWM can be set to
a frequency is a parameter.  `sample_rate_` keeps the value of the constructor.
-/
namespace Pico

open History (Reach)

/-- `sample_rate_`. -/
def sampleRate : UInt32 := 22050

structure Sound where
  datasz : UInt32 := 0
  idx : UInt32 := 0
  repeatCount : UInt8 := 0
  loop : Bool := false
  count : UInt32 := 0
  toneP : UInt32 := 0
  -- PWM_IRQ_WRAP is enabled, and the frequency of the PWM
  irq : Bool := false
  freq : UInt32 := 0
  deriving DecidableEq

namespace Sound

/-- `PWM::setFrequency`. -/
def setFrequency (succeeds : UInt32 → Bool) (s : Sound) (freq : UInt32) : Sound :=
  if succeeds freq then { s with freq := freq } else s

/-- `start`. -/
def start (succeeds : UInt32 → Bool) (s : Sound) : Sound := s.setFrequency succeeds sampleRate

/-- `next_pulse`. -/
def nextPulse (succeeds : UInt32 → Bool) (s : Sound) : Sound :=
  if s.count = 0 then
    if s.idx < s.datasz then { s with idx := s.idx + 1 }
    else
      let s := if s.repeatCount > 0 then { s with repeatCount := s.repeatCount - 1 } else s
      if s.loop || s.repeatCount > 0 then { s with idx := 0 } else { s with irq := false }
  else
    let s := { s with count := s.count - 1 }
    if s.count > 0 then
      if s.toneP > 0 then { s with idx := s.idx + 1 } else s
    else
      let s := setFrequency succeeds { s with toneP := 0, idx := 0 } sampleRate
      if !s.loop && s.repeatCount = 0 then { s with irq := false } else s

/-! ## Calls -/

/-- The statements of the calls; the reading and the writing of `repeat_ += repeat` are two, and `clearCount` is the
`count_ = 0` of `stopPlaying`. -/
inductive Stmt where
  | repeatCount (n : UInt8)
  | addRepeat (n : UInt8)
  | loop (b : Bool)
  | idx (i : UInt32)
  | idxEnd
  | clearCount
  | count (n : UInt32)
  | toneP (p : UInt32)
  | frequency (freq : UInt32)
  | data (size : UInt32)
  | enable
  | wait
  deriving DecidableEq

def exec (succeeds : UInt32 → Bool) (s : Sound) : Stmt → Sound
  | .repeatCount n => { s with repeatCount := n }
  | .addRepeat _ => s
  | .loop b => { s with loop := b }
  | .idx i => { s with idx := i }
  | .idxEnd => { s with idx := s.datasz }
  | .clearCount => { s with count := 0 }
  | .count n => { s with count := n }
  | .toneP p => { s with toneP := p }
  | .frequency freq => s.setFrequency succeeds freq
  | .data size => { s with datasz := size }
  | .enable => { s with irq := true }
  | .wait => s

/-- What a statement has still to do. -/
def Stmt.more (s : Sound) : Stmt → List Stmt
  | .addRepeat n => if s.repeatCount < 8 then [.repeatCount (s.repeatCount + n)] else []
  | _ => []

inductive Call where
  | setSoundData (size : UInt32)
  | setVolume
  | playOnce (n : UInt8)
  | startPlaying
  | stopPlaying (immediate : Bool)
  | tone (freq msec : UInt32) (inRange : Bool)
  | beep (freq msec : UInt32)
  deriving DecidableEq

/-- `stopPlaying`. -/
def stopPlaying (immediate : Bool) : List Stmt :=
  [.repeatCount 0, .loop false] ++ if immediate then [.idxEnd, .clearCount] else []

/-- `setSoundData`. -/
def setSoundData (size : UInt32) : List Stmt := stopPlaying false ++ [.wait, .data size]

/-- `playOnce`. -/
def playOnce (s : Sound) (n : UInt8) : List Stmt :=
  if !s.irq then [.idx 0, .repeatCount n, .enable] else [.addRepeat n]

/-- `startPlaying`. -/
def startPlaying : List Stmt := [.loop true, .enable]

/-- `tone`; whether the volume is from 0 to 1 is an argument. -/
def tone (freq msec : UInt32) (inRange : Bool) : List Stmt :=
  if freq > 0 && msec > 0 && inRange then
    stopPlaying false ++
      [.wait, .toneP (sampleRate / freq), .count (msec * sampleRate / 1000), .idx 0, .enable]
  else []

/-- `beep`. -/
def beep (freq msec : UInt32) : List Stmt :=
  if freq > 0 && msec > 0 then
    stopPlaying false ++ [.wait, .frequency freq, .count (msec * freq / 1000), .enable]
  else []

def Call.body (s : Sound) : Call → List Stmt
  | .setSoundData size => Sound.setSoundData size
  | .setVolume => []
  | .playOnce n => s.playOnce n
  | .startPlaying => Sound.startPlaying
  | .stopPlaying immediate => Sound.stopPlaying immediate
  | .tone freq msec inRange => Sound.tone freq msec inRange
  | .beep freq msec => Sound.beep freq msec

/-- The engine, and what is left of the call that runs. -/
structure State where
  sound : Sound
  rest : List Stmt := []
  deriving DecidableEq

inductive Event where
  | call (c : Call)
  | next
  | wrap
  deriving DecidableEq

def step (succeeds : UInt32 → Bool) (p : State) : Event → State
  | .call c => { p with rest := c.body p.sound }
  | .next =>
    match p.rest with
    | x :: rest => { sound := exec succeeds p.sound x, rest := x.more p.sound ++ rest }
    | [] => p
  | .wrap => { p with sound := p.sound.nextPulse succeeds }

/-- The PWM can be set to the frequency of a call. -/
def Call.Succeeds (succeeds : UInt32 → Bool) : Call → Prop
  | .beep freq _ => succeeds freq = true
  | _ => True

/-- One call runs at a time, `wait` is left once the interrupt is disabled, and it comes while it is enabled. -/
def Can (succeeds : UInt32 → Bool) (p : State) : Event → Prop
  | .call c => p.rest = [] ∧ c.Succeeds succeeds
  | .next => p.rest ≠ [] ∧ (p.rest.head? = some .wait → p.sound.irq = false)
  | .wrap => p.sound.irq = true

/-- No tone, and no frequency of a beep. -/
def Quiet (s : Sound) : Prop := s.toneP = 0 ∧ s.freq = sampleRate

/-- Between calls an engine whose interrupt is disabled is reset. -/
def Reset (p : State) : Prop := p.rest = [] → p.sound.irq = false → p.sound.count = 0 ∧ Quiet p.sound

/-- A tone or a beep lasts for one count at least, or sets what is set already. -/
def Call.Lasts : Call → Prop
  | .tone freq msec inRange =>
    freq > 0 ∧ msec > 0 ∧ inRange = true → msec * sampleRate / 1000 = 0 → sampleRate / freq = 0
  | .beep freq msec => freq > 0 ∧ msec > 0 → msec * freq / 1000 = 0 → freq = sampleRate
  | _ => True

/-- Calls last, and `stopPlaying` ends neither a tone nor a beep at once. -/
def Fine (p : State) : Event → Prop
  | .call c => c.Lasts
  | .next => p.rest.head? = some .clearCount → Quiet p.sound
  | .wrap => True

instance decidableCan (succeeds : UInt32 → Bool) (p : State) : ∀ e, Decidable (Can succeeds p e)
  | .call c =>
    have : Decidable (c.Succeeds succeeds) := match c with
      | .beep freq _ => inferInstanceAs (Decidable (succeeds freq = true))
      | .setSoundData _ | .setVolume | .playOnce _ | .startPlaying | .stopPlaying _ | .tone _ _ _ => isTrue trivial
    inferInstanceAs (Decidable (_ ∧ _))
  | .next => inferInstanceAs (Decidable (_ ∧ _))
  | .wrap => inferInstanceAs (Decidable (_ = _))

instance decidableQuiet (s : Sound) : Decidable (Quiet s) := inferInstanceAs (Decidable (_ ∧ _))

instance decidableLasts : ∀ c : Call, Decidable c.Lasts
  | .tone _ _ _ | .beep _ _ => inferInstanceAs (Decidable (_ → _))
  | .setSoundData _ | .setVolume | .playOnce _ | .startPlaying | .stopPlaying _ => isTrue trivial

instance decidableFine (p : State) : ∀ e, Decidable (Fine p e)
  | .call c => inferInstanceAs (Decidable c.Lasts)
  | .next => inferInstanceAs (Decidable (_ → _))
  | .wrap => isTrue trivial

/-! ## The interrupt -/

variable {succeeds : UInt32 → Bool}

theorem setFrequency_of {s : Sound} {freq : UInt32} (h : succeeds freq = true) :
    s.setFrequency succeeds freq = { s with freq := freq } := if_pos h

/-- While samples are played neither the count nor what sounds changes. -/
theorem nextPulse_play {s : Sound} (hc : s.count = 0) :
    ∃ i r b, s.nextPulse succeeds = { s with idx := i, repeatCount := r, irq := b } := by
  unfold nextPulse
  rw [if_pos hc]
  split
  · exact ⟨_, _, _, rfl⟩
  · simp only
    split <;> split
    · exact ⟨_, _, _, rfl⟩
    · exact ⟨_, _, _, rfl⟩
    · exact ⟨_, _, _, rfl⟩
    · exact ⟨_, _, _, rfl⟩

theorem nextPulse_sample {s : Sound} (hc : s.count = 0) (hi : s.idx < s.datasz) :
    s.nextPulse succeeds = { s with idx := s.idx + 1 } := by
  unfold nextPulse
  rw [if_pos hc, if_pos hi]

theorem nextPulse_end {s : Sound} (hc : s.count = 0) (hi : ¬ s.idx < s.datasz) (hl : s.loop = false)
    (hr : s.repeatCount = 0) : s.nextPulse succeeds = { s with irq := false } := by
  have hpos : ¬ s.repeatCount > 0 := by
    rw [hr]
    decide
  unfold nextPulse
  rw [if_pos hc, if_neg hi]
  simp only
  rw [if_neg hpos, hl, hr]
  rfl

theorem nextPulse_going {s : Sound} (hc : s.count ≠ 0) (hn : s.count - 1 > 0) :
    ∃ i, s.nextPulse succeeds = { s with count := s.count - 1, idx := i } := by
  unfold nextPulse
  rw [if_neg hc]
  simp only
  rw [if_pos hn]
  split
  · exact ⟨_, rfl⟩
  · exact ⟨_, rfl⟩

/-- The last count of a tone or a beep resets the engine. -/
theorem nextPulse_last {s : Sound} (hrate : succeeds sampleRate = true) (hc : s.count ≠ 0) (hn : ¬ s.count - 1 > 0) :
    ∃ b, s.nextPulse succeeds = { s with count := s.count - 1, toneP := 0, idx := 0, freq := sampleRate, irq := b } ∧
      (s.loop = false → s.repeatCount = 0 → b = false) := by
  unfold nextPulse
  rw [if_neg hc]
  simp only
  rw [if_neg hn, setFrequency_of hrate]
  split
  case isTrue h => exact ⟨false, rfl, fun _ _ => rfl⟩
  case isFalse h =>
    refine ⟨s.irq, rfl, fun hl hr => absurd ?_ h⟩
    simp only [hl, hr]
    rfl

theorem eq_zero_of_not_pos {n : UInt32} (h : ¬ n > 0) : n = 0 := UInt32.le_zero_iff.1 (UInt32.not_lt.1 h)

/-! ## The invariant -/

/-- An engine that is disabled counts nothing, and one that counts nothing sounds nothing. -/
structure Calm (s : Sound) : Prop where
  idle : s.irq = false → s.count = 0
  quiet : s.count = 0 → Quiet s

theorem Calm.nextPulse {s : Sound} (h : Calm s) (hrate : succeeds sampleRate = true) (hirq : s.irq = true) :
    Calm (s.nextPulse succeeds) := by
  by_cases hc : s.count = 0
  · obtain ⟨i, r, b, he⟩ := @nextPulse_play succeeds s hc
    rw [he]
    exact ⟨fun _ => hc, fun _ => h.quiet hc⟩
  · by_cases hn : s.count - 1 > 0
    · obtain ⟨i, he⟩ := @nextPulse_going succeeds s hc hn
      rw [he]
      refine ⟨fun hb => ?_, fun h0 => ?_⟩
      · rw [show s.irq = false from hb] at hirq
        cases hirq
      · rw [show s.count - 1 = 0 from h0] at hn
        exact absurd hn (by decide)
    · obtain ⟨b, he, -⟩ := nextPulse_last hrate hc hn
      rw [he]
      exact ⟨fun _ => eq_zero_of_not_pos hn, fun _ => ⟨rfl, rfl⟩⟩

/-- Statements that change neither the count nor what sounds. -/
def Stmt.Easy : Stmt → Prop
  | .clearCount | .count _ | .toneP _ | .frequency _ => False
  | _ => True

/-- Statements that set up a tone or a beep. -/
def Stmt.Sets : Stmt → Prop
  | .count _ | .toneP _ | .frequency _ | .idx _ => True
  | _ => False

theorem Calm.exec {s : Sound} (h : Calm s) {x : Stmt} (hx : x.Easy) : Calm (exec succeeds s x) := by
  cases x with
  | clearCount => exact hx.elim
  | count n => exact hx.elim
  | toneP p => exact hx.elim
  | frequency freq => exact hx.elim
  | enable => exact ⟨nofun, h.quiet⟩
  | _ => exact ⟨h.idle, h.quiet⟩

theorem easy_more (s : Sound) {x : Stmt} : ∀ y ∈ x.more s, y.Easy := by
  intro y hy
  cases x with
  | addRepeat n =>
    by_cases hr : s.repeatCount < 8
    · rw [show Stmt.more s (.addRepeat n) = [.repeatCount (s.repeatCount + n)] from if_pos hr] at hy
      rw [List.mem_singleton.1 hy]
      trivial
    · rw [show Stmt.more s (.addRepeat n) = [] from if_neg hr] at hy
      cases hy
  | _ => cases hy

theorem exec_irq {s : Sound} {x : Stmt} (hx : x.Sets) : (exec succeeds s x).irq = s.irq := by
  cases x with
  | frequency freq =>
    by_cases hf : succeeds freq = true
    · rw [show exec succeeds s (.frequency freq) = { s with freq := freq } from if_pos hf]
    · rw [show exec succeeds s (.frequency freq) = s from if_neg hf]
  | count n => rfl
  | toneP p => rfl
  | idx i => rfl
  | _ => exact hx.elim

theorem more_of_sets {s : Sound} {x : Stmt} (hx : x.Sets) : x.more s = [] := by
  cases x with
  | addRepeat n => exact hx.elim
  | _ => rfl

/-- What sets up a tone or a beep, and enables it, keeps a quiet engine calm. -/
structure Setup (succeeds : UInt32 → Bool) (m : List Stmt) : Prop where
  sets : ∀ x ∈ m, x.Sets
  calm : ∀ s : Sound, Quiet s → Calm ((m ++ [Stmt.enable]).foldl (Sound.exec succeeds) s)

/-- How a call goes on after its easy statements. -/
inductive Tail (succeeds : UInt32 → Bool) : List Stmt → Prop where
  | none : Tail succeeds []
  | clear : Tail succeeds [.clearCount]
  | wait {m : List Stmt} : Setup succeeds m → Tail succeeds (.wait :: (m ++ [.enable]))

/-- The engine is calm but while a call sets up a tone or a beep, with the interrupt disabled. -/
inductive Phase (succeeds : UInt32 → Bool) (s : Sound) : List Stmt → Prop where
  | calm {l t : List Stmt} : Calm s → (∀ x ∈ l, x.Easy) → Tail succeeds t → Phase succeeds s (l ++ t)
  | setup {m : List Stmt} : s.irq = false → (∀ x ∈ m, x.Sets) →
      Calm ((m ++ [Stmt.enable]).foldl (Sound.exec succeeds) s) → Phase succeeds s (m ++ [.enable])

theorem Phase.calm_of_nil {s : Sound} {l : List Stmt} (h : Phase succeeds s l) (hl : l = []) : Calm s := by
  cases h with
  | calm h _ _ => exact h
  | setup _ _ _ => exact absurd hl (List.append_ne_nil_of_right_ne_nil _ (List.cons_ne_nil _ _))

theorem Phase.reset {p : State} (h : Phase succeeds p.sound p.rest) : Reset p := by
  intro hrest hirq
  have hc := h.calm_of_nil hrest
  exact ⟨hc.idle hirq, hc.quiet (hc.idle hirq)⟩

theorem Phase.wrap {s : Sound} {l : List Stmt} (h : Phase succeeds s l) (hrate : succeeds sampleRate = true)
    (hirq : s.irq = true) : Phase succeeds (s.nextPulse succeeds) l := by
  cases h with
  | calm hc hl ht => exact .calm (hc.nextPulse hrate hirq) hl ht
  | setup hb _ _ =>
    rw [hb] at hirq
    cases hirq

/-- One statement of a call. -/
theorem Phase.next {s : Sound} {x : Stmt} {l : List Stmt} (h : Phase succeeds s (x :: l))
    (hwait : x = .wait → s.irq = false) (hclear : x = .clearCount → Quiet s) :
    Phase succeeds (Sound.exec succeeds s x) (x.more s ++ l) := by
  generalize hrest : x :: l = rest at h
  cases h with
  | @calm easy t hc hl ht =>
    cases easy with
    | cons y easy =>
      rw [List.cons_append] at hrest
      obtain ⟨rfl, rfl⟩ := List.cons.inj hrest
      rw [← List.append_assoc]
      refine .calm (hc.exec (hl x (List.mem_cons_self ..))) (fun z hz => ?_) ht
      rcases List.mem_append.1 hz with hz | hz
      · exact easy_more s z hz
      · exact hl z (List.mem_cons_of_mem _ hz)
    | nil =>
      cases ht with
      | none => cases hrest
      | clear =>
        obtain ⟨rfl, rfl⟩ := List.cons.inj hrest
        exact .calm (l := []) ⟨fun _ => rfl, fun _ => hclear rfl⟩ nofun .none
      | @wait m hm =>
        obtain ⟨rfl, rfl⟩ := List.cons.inj hrest
        exact .setup (hwait rfl) hm.sets (hm.calm s (hc.quiet (hc.idle (hwait rfl))))
  | @setup m hirq hm hc =>
    cases m with
    | nil =>
      obtain ⟨rfl, rfl⟩ := List.cons.inj hrest
      exact .calm (l := []) hc nofun .none
    | cons y m =>
      obtain ⟨rfl, rfl⟩ := List.cons.inj hrest
      have hx := hm x (List.mem_cons_self ..)
      rw [more_of_sets hx]
      exact .setup ((exec_irq hx).trans hirq) (fun z hz => hm z (List.mem_cons_of_mem _ hz)) hc

theorem tail_tone {freq msec : UInt32} (hlasts : msec * sampleRate / 1000 = 0 → sampleRate / freq = 0) :
    Tail succeeds [.wait, .toneP (sampleRate / freq), .count (msec * sampleRate / 1000), .idx 0, .enable] := by
  refine .wait (m := [.toneP (sampleRate / freq), .count (msec * sampleRate / 1000), .idx 0]) ⟨?_, fun s hs => ?_⟩
  · simp [Stmt.Sets]
  · exact ⟨nofun, fun h0 => ⟨hlasts h0, hs.2⟩⟩

theorem tail_beep {freq msec : UInt32} (hf : succeeds freq = true)
    (hlasts : msec * freq / 1000 = 0 → freq = sampleRate) :
    Tail succeeds [.wait, .frequency freq, .count (msec * freq / 1000), .enable] := by
  refine .wait (m := [.frequency freq, .count (msec * freq / 1000)]) ⟨?_, fun s hs => ?_⟩
  · simp [Stmt.Sets]
  · have he : [Stmt.frequency freq, .count (msec * freq / 1000), .enable].foldl (Sound.exec succeeds) s =
        { s.setFrequency succeeds freq with count := msec * freq / 1000, irq := true } := rfl
    rw [List.cons_append, List.singleton_append, he, setFrequency_of hf]
    exact ⟨nofun, fun h0 => ⟨hs.1, hlasts h0⟩⟩

/-- A call whose statements are all easy. -/
theorem Calm.phase {s : Sound} (h : Calm s) {l : List Stmt} (hl : ∀ x ∈ l, x.Easy) : Phase succeeds s l := by
  have hp : Phase succeeds s (l ++ []) := .calm h hl .none
  rwa [List.append_nil] at hp

/-- A call that stops what plays first. -/
theorem Calm.phase_stop {s : Sound} (h : Calm s) {t : List Stmt} (ht : Tail succeeds t) :
    Phase succeeds s (stopPlaying false ++ t) := .calm h (by simp [stopPlaying, Stmt.Easy]) ht

/-- A call that lasts is one phase from its first statement. -/
theorem Calm.phase_body {s : Sound} (h : Calm s) {c : Call} (hs : c.Succeeds succeeds) (hlasts : c.Lasts) :
    Phase succeeds s (c.body s) := by
  cases c with
  | setSoundData size => exact h.phase (by simp [Call.body, Sound.setSoundData, stopPlaying, Stmt.Easy])
  | setVolume => exact h.phase nofun
  | playOnce n =>
    cases hirq : s.irq with
    | false =>
      rw [show Call.body s (.playOnce n) = [.idx 0, .repeatCount n, .enable] by simp [Call.body, Sound.playOnce, hirq]]
      exact h.phase (by simp [Stmt.Easy])
    | true =>
      rw [show Call.body s (.playOnce n) = [.addRepeat n] by simp [Call.body, Sound.playOnce, hirq]]
      exact h.phase (by simp [Stmt.Easy])
  | startPlaying => exact h.phase (by simp [Call.body, Sound.startPlaying, Stmt.Easy])
  | stopPlaying immediate =>
    cases immediate with
    | false => exact h.phase_stop .none
    | true => exact .calm (l := [.repeatCount 0, .loop false, .idxEnd]) h (by simp [Stmt.Easy]) .clear
  | tone freq msec inRange =>
    by_cases hg : (freq > 0 && msec > 0 && inRange) = true
    · rw [show Call.body s (.tone freq msec inRange) = _ from if_pos hg]
      simp only [Bool.and_eq_true, decide_eq_true_eq] at hg
      exact h.phase_stop (tail_tone (hlasts ⟨hg.1.1, hg.1.2, hg.2⟩))
    · rw [show Call.body s (.tone freq msec inRange) = [] from if_neg hg]
      exact h.phase nofun
  | beep freq msec =>
    by_cases hg : (freq > 0 && msec > 0) = true
    · rw [show Call.body s (.beep freq msec) = _ from if_pos hg]
      simp only [Bool.and_eq_true, decide_eq_true_eq] at hg
      exact h.phase_stop (tail_beep hs (hlasts hg))
    · rw [show Call.body s (.beep freq msec) = [] from if_neg hg]
      exact h.phase nofun

/-- One event, whatever it is. -/
theorem Phase.step {p : State} (h : Phase succeeds p.sound p.rest) (hrate : succeeds sampleRate = true) {e : Event}
    (hcan : Can succeeds p e) (hfine : Fine p e) :
    Phase succeeds (step succeeds p e).sound (step succeeds p e).rest := by
  cases e with
  | call c => exact (h.calm_of_nil hcan.1).phase_body hcan.2 hfine
  | wrap => exact h.wrap hrate hcan
  | next =>
    obtain ⟨s, rest⟩ := p
    cases rest with
    | nil => exact absurd rfl hcan.1
    | cons x l =>
      exact h.next (fun hx => hcan.2 (congrArg some hx)) (fun hx => hfine (congrArg some hx))

/-! ## What happens otherwise -/

/-- The states that a state leads to. -/
def Leads (succeeds : UInt32 → Bool) (p q : State) : Prop := Reach p (Sound.step succeeds) (Can succeeds) q

theorem Leads.next {p : State} {s : Sound} {x : Stmt} {l : List Stmt} (h : Leads succeeds p ⟨s, x :: l⟩)
    (hwait : x = .wait → s.irq = false) : Leads succeeds p ⟨exec succeeds s x, x.more s ++ l⟩ := by
  have hcan : Can succeeds ⟨s, x :: l⟩ .next := ⟨List.cons_ne_nil _ _, fun hx => hwait (Option.some.inj hx)⟩
  exact Reach.step h hcan

theorem Leads.wrap {p : State} {s : Sound} {l : List Stmt} (h : Leads succeeds p ⟨s, l⟩) (hirq : s.irq = true) :
    Leads succeeds p ⟨s.nextPulse succeeds, l⟩ := by
  have hcan : Can succeeds ⟨s, l⟩ .wrap := hirq
  exact Reach.step h hcan

/-- The statements that set up a tone or a beep run one after another, and enable it. -/
theorem Leads.setup {p : State} : ∀ {m : List Stmt} {s : Sound}, (∀ x ∈ m, x.Sets) →
    Leads succeeds p ⟨s, m ++ [.enable]⟩ → Leads succeeds p ⟨(m ++ [Stmt.enable]).foldl (exec succeeds) s, []⟩
  | [], _, _, h => h.next nofun
  | x :: m, s, hm, h => by
    have hx := hm x (List.mem_cons_self ..)
    have hn := h.next (by rintro rfl; exact hx.elim)
    rw [more_of_sets hx] at hn
    exact Leads.setup (m := m) (fun y hy => hm y (List.mem_cons_of_mem x hy)) hn

theorem toNat_succ_of_lt {i n : UInt32} (h : i < n) : (i + 1).toNat = i.toNat + 1 := by
  have hlt : i.toNat + 1 < 2 ^ 32 := Nat.lt_of_le_of_lt (UInt32.lt_iff_toNat_lt.1 h) n.toNat_lt
  rw [UInt32.toNat_add]
  exact Nat.mod_eq_of_lt hlt

theorem toNat_pred_of_ne {n : UInt32} (h : n ≠ 0) : (n - 1).toNat + 1 = n.toNat := by
  have hpos : 1 ≤ n.toNat := Nat.one_le_iff_ne_zero.2 (fun h0 => h (UInt32.toNat_inj.1 h0))
  have hle : (1 : UInt32) ≤ n := UInt32.le_iff_toNat_le.2 hpos
  rw [UInt32.toNat_sub_of_le _ _ hle]
  exact Nat.sub_add_cancel hpos

theorem Leads.off {p : State} {s : Sound} {l : List Stmt} (h : Leads succeeds p ⟨s, l⟩) (hirq : s.irq = false) :
    Leads succeeds p ⟨{ s with irq := false }, l⟩ := by
  rw [← hirq]
  exact h

/-- Samples that are not repeated come to their end. -/
theorem Leads.played {p : State} {l : List Stmt} : ∀ (n : Nat) {s : Sound}, Leads succeeds p ⟨s, l⟩ → s.count = 0 →
    s.loop = false → s.repeatCount = 0 → s.datasz.toNat - s.idx.toNat ≤ n →
    ∃ i, Leads succeeds p ⟨{ s with idx := i, irq := false }, l⟩ := by
  intro n
  induction n with
  | zero =>
    intro s h hc hl hr hn
    cases hirq : s.irq with
    | false => exact ⟨s.idx, h.off hirq⟩
    | true =>
      have hi : ¬ s.idx < s.datasz := by
        rw [UInt32.lt_iff_toNat_lt]
        omega
      have hw := h.wrap hirq
      rw [nextPulse_end hc hi hl hr] at hw
      exact ⟨s.idx, hw⟩
  | succ n ih =>
    intro s h hc hl hr hn
    cases hirq : s.irq with
    | false => exact ⟨s.idx, h.off hirq⟩
    | true =>
      have hw := h.wrap hirq
      by_cases hi : s.idx < s.datasz
      · rw [nextPulse_sample hc hi] at hw
        have hleft : s.datasz.toNat - (s.idx + 1).toNat ≤ n := by
          rw [toNat_succ_of_lt hi]
          omega
        obtain ⟨i, hend⟩ := ih hw hc hl hr hleft
        exact ⟨i, hend⟩
      · rw [nextPulse_end hc hi hl hr] at hw
        exact ⟨s.idx, hw⟩

/-- So does a tone or a beep. -/
theorem Leads.counted {p : State} {l : List Stmt} (hrate : succeeds sampleRate = true) : ∀ (n : Nat) {s : Sound},
    Leads succeeds p ⟨s, l⟩ → s.count ≠ 0 → s.loop = false → s.repeatCount = 0 → s.count.toNat ≤ n →
    ∃ s' : Sound, s'.irq = false ∧ Leads succeeds p ⟨s', l⟩ := by
  intro n
  induction n with
  | zero =>
    intro s _ hc _ _ hn
    exact absurd (UInt32.toNat_inj.1 (Nat.le_zero.1 hn)) hc
  | succ n ih =>
    intro s h hc hl hr hn
    cases hirq : s.irq with
    | false => exact ⟨s, hirq, h⟩
    | true =>
      have hw := h.wrap hirq
      by_cases hpos : s.count - 1 > 0
      · obtain ⟨i, he⟩ := @nextPulse_going succeeds s hc hpos
        rw [he] at hw
        refine ih hw (fun h0 => ?_) hl hr ?_
        · rw [show s.count - 1 = 0 from h0] at hpos
          exact absurd hpos (by decide)
        · have hp := toNat_pred_of_ne hc
          change (s.count - 1).toNat ≤ n
          omega
      · obtain ⟨b, he, hb⟩ := nextPulse_last hrate hc hpos
        rw [he] at hw
        exact ⟨_, hb hl hr, hw⟩

/-- **What is stopped comes to its end**, so `wait` returns; what sounds without a count sounds on. -/
theorem Leads.stopped {p : State} (hrate : succeeds sampleRate = true) {s : Sound} {l : List Stmt}
    (h : Leads succeeds p ⟨s, stopPlaying false ++ l⟩) :
    ∃ s' : Sound, s'.irq = false ∧ (s.count = 0 → s'.count = 0 ∧ s'.toneP = s.toneP ∧ s'.freq = s.freq) ∧
      Leads succeeds p ⟨s', l⟩ := by
  have h2 := (h.next nofun).next nofun
  by_cases hc : s.count = 0
  · obtain ⟨i, hi⟩ := h2.played _ hc rfl rfl (Nat.le_refl _)
    exact ⟨{ s with repeatCount := 0, loop := false, idx := i, irq := false }, rfl, fun _ => ⟨hc, rfl, rfl⟩, hi⟩
  · obtain ⟨s', hirq, hs⟩ := h2.counted hrate _ hc rfl rfl (Nat.le_refl _)
    exact ⟨s', hirq, fun h0 => absurd h0 hc, hs⟩

/-- A sound without a count is never reset. -/
theorem Leads.spoilt {p : State} (hrate : succeeds sampleRate = true) {s : Sound} (h : Leads succeeds p ⟨s, []⟩)
    (hc : s.count = 0) (hq : ¬ Quiet s) : ∃ q, Leads succeeds p q ∧ ¬ Reset q := by
  have hcan : Can succeeds ⟨s, []⟩ (.call (.stopPlaying false)) := ⟨rfl, trivial⟩
  have hcall : Leads succeeds p ⟨s, stopPlaying false ++ []⟩ := Reach.step h hcan
  obtain ⟨s', hirq, hkept, hs⟩ := hcall.stopped hrate
  obtain ⟨-, htone, hfreq⟩ := hkept hc
  refine ⟨_, hs, fun hreset => hq ?_⟩
  obtain ⟨-, hquiet⟩ := hreset rfl hirq
  exact ⟨htone ▸ hquiet.1, hfreq ▸ hquiet.2⟩

/-- A tone or a beep of no count leaves the engine as it set it up. -/
theorem Leads.spoilt_setup {p : State} (hrate : succeeds sampleRate = true) {s : Sound} {m : List Stmt}
    (h : Leads succeeds p ⟨s, stopPlaying false ++ .wait :: (m ++ [.enable])⟩) (hm : ∀ x ∈ m, x.Sets)
    (hbad : ∀ s : Sound, let s' := (m ++ [Stmt.enable]).foldl (exec succeeds) s
      s'.count = 0 ∧ ¬ Quiet s') : ∃ q, Leads succeeds p q ∧ ¬ Reset q := by
  obtain ⟨s', hirq, -, hs⟩ := h.stopped hrate
  have hset := (hs.next (fun _ => hirq)).setup hm
  exact hset.spoilt hrate (hbad s').1 (hbad s').2

/-- A tone or a beep that does not last. -/
theorem spoilt_call (hrate : succeeds sampleRate = true) {s : Sound} {c : Call} (hs : c.Succeeds succeeds)
    (hlasts : ¬ c.Lasts) : ∃ q, Leads succeeds ⟨s, c.body s⟩ q ∧ ¬ Reset q := by
  have hr : Leads succeeds ⟨s, c.body s⟩ ⟨s, c.body s⟩ := .init
  cases c with
  | tone freq msec inRange =>
    simp only [Call.Lasts, Classical.not_imp] at hlasts
    obtain ⟨⟨hfreq, hmsec, hin⟩, hcount, htone⟩ := hlasts
    have hbody : Call.body s (.tone freq msec inRange) = _ :=
      if_pos (show (freq > 0 && msec > 0 && inRange) = true by simp [hfreq, hmsec, hin])
    rw [hbody] at hr ⊢
    refine hr.spoilt_setup (m := [.toneP (sampleRate / freq), .count (msec * sampleRate / 1000), .idx 0]) hrate
      (by simp [Stmt.Sets]) ?_
    exact fun s => ⟨hcount, fun hq => htone hq.1⟩
  | beep freq msec =>
    simp only [Call.Lasts, Classical.not_imp] at hlasts
    obtain ⟨⟨hfreq, hmsec⟩, hcount, hne⟩ := hlasts
    have hbody : Call.body s (.beep freq msec) = _ :=
      if_pos (show (freq > 0 && msec > 0) = true by simp [hfreq, hmsec])
    rw [hbody] at hr ⊢
    refine hr.spoilt_setup (m := [.frequency freq, .count (msec * freq / 1000)]) hrate (by simp [Stmt.Sets]) ?_
    intro s
    refine ⟨hcount, fun hq => hne ?_⟩
    have hset : (s.setFrequency succeeds freq).freq = sampleRate := hq.2
    rwa [setFrequency_of hs] at hset
  | _ => exact absurd trivial hlasts

/-- `stopPlaying` clears the count last. -/
theorem Phase.clear {s : Sound} {rest l : List Stmt} (h : Phase succeeds s rest) (hrest : rest = .clearCount :: l) :
    l = [] := by
  cases h with
  | @calm easy t _ hl ht =>
    cases easy with
    | nil =>
      cases ht with
      | none => cases hrest
      | clear =>
        cases hrest
        rfl
      | wait _ => cases hrest
    | cons y easy =>
      obtain ⟨rfl, -⟩ := List.cons.inj hrest
      exact (hl _ (List.mem_cons_self ..)).elim
  | @setup m _ hm _ =>
    cases m with
    | nil => cases hrest
    | cons y m =>
      obtain ⟨rfl, -⟩ := List.cons.inj hrest
      exact (hm _ (List.mem_cons_self ..)).elim

/-- What is not fine comes to a disabled engine that is not reset. -/
theorem Phase.spoilt {p : State} (h : Phase succeeds p.sound p.rest) (hrate : succeeds sampleRate = true) {e : Event}
    (hcan : Can succeeds p e) (hfine : ¬ Fine p e) : ∃ q, Leads succeeds (Sound.step succeeds p e) q ∧ ¬ Reset q := by
  cases e with
  | call c => exact spoilt_call hrate hcan.2 hfine
  | wrap => exact absurd trivial hfine
  | next =>
    obtain ⟨s, rest⟩ := p
    obtain ⟨hhead, hq⟩ := Classical.not_imp.1 hfine
    obtain ⟨l, hrest⟩ := List.head?_eq_some_iff.1 hhead
    have hrest' : rest = .clearCount :: l := hrest
    rw [hrest', h.clear hrest]
    have hr : Leads succeeds (Sound.step succeeds ⟨s, [.clearCount]⟩ .next) ⟨{ s with count := 0 }, []⟩ := .init
    exact hr.spoilt hrate rfl hq

theorem phase_start (hrate : succeeds sampleRate = true) : Phase succeeds (start succeeds {}) [] := by
  have hs : start succeeds {} = { freq := sampleRate } := setFrequency_of hrate
  rw [hs]
  exact Calm.phase ⟨fun _ => rfl, fun _ => ⟨rfl, rfl⟩⟩ nofun

/-- **An engine that is stopped at once only while nothing sounds, and whose tones and beeps last, is reset** whenever
its interrupt is disabled; otherwise it comes to be disabled without that. -/
theorem sound_reset (succeeds : UInt32 → Bool) (hrate : succeeds sampleRate = true) (p : State)
    (h : Reach ⟨start succeeds {}, []⟩ (step succeeds) (fun p e => Can succeeds p e ∧ Fine p e) p) :
    Reset p ∧ ∀ e, Can succeeds p e → ¬ Fine p e →
      ∃ q, Reach (step succeeds p e) (step succeeds) (Can succeeds) q ∧ ¬ Reset q := by
  have hp : Phase succeeds p.sound p.rest :=
    History.inv_of_reach (I := fun p => Phase succeeds p.sound p.rest) (phase_start hrate)
      (fun _ _ hi he => hi.step hrate he.1 he.2) h
  exact ⟨hp.reset, fun _ hcan hfine => hp.spoilt hrate hcan hfine⟩

/-- Frequencies that a PWM can be set to. -/
def audible (freq : UInt32) : Bool := 8 ≤ freq && freq ≤ 22050

/-- A beep of two counts, rung once more while it sounds, then data that is played and stopped at once. -/
def someEvents : List Event :=
  [.call (.beep 1000 2), .next, .next, .next, .next, .next, .next, .wrap, .call (.playOnce 1), .next, .next, .wrap,
    .wrap, .call (.setSoundData 1), .next, .next, .next, .next, .call (.playOnce 1), .next, .next, .next, .wrap,
    .call (.stopPlaying true), .next, .next, .next, .next]

theorem sound_reset_run :
    Reset (someEvents.foldl (step audible) ⟨start audible {}, []⟩) ∧
    ∃ q, Reach (step audible (someEvents.foldl (step audible) ⟨start audible {}, []⟩) (.call (.beep 500 1)))
      (step audible) (Can audible) q ∧ ¬ Reset q :=
  have h := sound_reset audible (by decide) (someEvents.foldl (step audible) ⟨start audible {}, []⟩)
    (History.reach_along someEvents _ .init (by decide +kernel))
  ⟨h.1, h.2 (.call (.beep 500 1)) (by decide +kernel) (by decide +kernel)⟩

/-- A beep that is stopped at once leaves the PWM at its frequency. -/
theorem beep_stopped : ¬ ∀ p : State, Reach ⟨start audible {}, []⟩ (step audible) (Can audible) p → Reset p := by
  intro h
  have hr := h ([.call (.beep 1000 2), .next, .next, .next, .next, .next, .next, .call (.stopPlaying true), .next,
    .next, .next, .next, .wrap].foldl (step audible) ⟨start audible {}, []⟩)
    (History.reach_along _ _ .init (by decide +kernel))
  exact absurd (hr (by decide +kernel) (by decide +kernel)) (by decide +kernel)

end Sound
end Pico
