import Mathlib.Data.List.Perm.Basic
import Picolibs.Loop
/-!
# Listeners — the servers that are started and stopped (`web.cpp`, `start_http` to `stop_https`)

A server that listens has a control block of the library, and one that speaks TLS has a configuration.  A start that
comes to nothing is to give both back, and a stop is to give them back as well.

`kept_and_lost` is what is so in every run: nothing is given back that is not the program's, and what is neither given
back nor in use is one control block for each `start_http` that could not bind, and one configuration for each server
that `stop_https` stopped.
-/
namespace Pico
namespace Listeners

open History (Along)

/-! ## What a program has been given -/

/-- What is given out is what is owned, each once. -/
structure Owns {α : Type} (given owned : List α) : Prop where
  perm : given.Perm owned
  nodup : given.Nodup

section
variable {α : Type} {given owned owned' xs ys : List α} {x : α}

theorem Owns.reorder (h : Owns given owned) (hp : owned.Perm owned') : Owns given owned' := ⟨h.perm.trans hp, h.nodup⟩

theorem Owns.give (h : Owns given owned) (hx : x ∉ given) : Owns (x :: given) (x :: owned) :=
  ⟨h.perm.cons x, List.nodup_cons.2 ⟨hx, h.nodup⟩⟩

theorem Owns.mem (h : Owns given (xs ++ x :: ys)) : x ∈ given := h.perm.mem_iff.2 (by simp)

theorem Owns.giveBack [BEq α] [LawfulBEq α] (h : Owns given (xs ++ x :: ys)) : Owns (given.erase x) (xs ++ ys) := by
  refine ⟨?_, h.nodup.erase x⟩
  have hfront := (h.perm.trans List.perm_middle).erase x
  rwa [List.erase_cons_head] at hfront

end

/-! ## The servers -/

/-- What the callback of the application and the library answer to one start: whether there is a certificate, the TLS
configuration, the control block, whether it is bound, and the control block that listens in its place. -/
structure Answers where
  cert : Bool := true
  conf : Option Nat := none
  pcb : Option Nat
  bound : Bool := true
  listening : Option Nat
  deriving DecidableEq

/-- The members, and what the library has given out: `pcbs` and `confs`.  `wild` is set where something else is given
back. -/
structure Web where
  httpServer : Option Nat := none
  httpsServer : Option Nat := none
  tlsConf : Option Nat := none
  tlsCallback : Bool := false
  pcbs : List Nat := []
  confs : List Nat := []
  wild : Bool := false
  deriving DecidableEq

namespace Web

/-- `altcp_close`. -/
def altcpClose (w : Web) (pcb : Nat) : Web :=
  if pcb ∈ w.pcbs then { w with pcbs := w.pcbs.erase pcb } else { w with wild := true }

/-- `altcp_tls_free_config`. -/
def freeConfig (w : Web) (conf : Nat) : Web :=
  if conf ∈ w.confs then { w with confs := w.confs.erase conf } else { w with wild := true }

/-- `start_http`; `altcp_bind` refuses a null pointer. -/
def startHttp (w : Web) (a : Answers) : Bool × Web :=
  if w.httpServer.isSome then (true, w)
  else
    match a.pcb with
    | none => (false, w)
    | some pcb =>
      let w := { w with pcbs := pcb :: w.pcbs }
      if !a.bound then (false, w)
      else
        match a.listening with
        | none => (false, w.altcpClose pcb)
        | some server => (true, { w with httpServer := some server, pcbs := server :: w.pcbs.erase pcb })

/-- `start_https`, where it is compiled in. -/
def startHttps (w : Web) (a : Answers) : Bool × Web :=
  if w.httpsServer.isNone && w.tlsCallback && a.cert then
    match a.conf with
    | none => (false, { w with tlsConf := none })
    | some conf =>
      let w := { w with tlsConf := some conf, confs := conf :: w.confs }
      match a.pcb with
      | none => (false, { w.freeConfig conf with tlsConf := none })
      | some pcb =>
        let w := { w with pcbs := pcb :: w.pcbs }
        if !a.bound then (false, { (w.altcpClose pcb).freeConfig conf with tlsConf := none })
        else
          match a.listening with
          | none => (false, { (w.altcpClose pcb).freeConfig conf with tlsConf := none })
          | some server => (true, { w with httpsServer := some server, pcbs := server :: w.pcbs.erase pcb })
  else (false, w)

/-- `stop_http`. -/
def stopHttp (w : Web) : Bool × Web :=
  match w.httpServer with
  | none => (false, w)
  | some server => (true, { w.altcpClose server with httpServer := none })

/-- `stop_https`, with the call of `altcp_tls_free_config` commented out. -/
def stopHttps (w : Web) : Bool × Web :=
  match w.httpsServer with
  | none => (false, w)
  | some server => (true, { w.altcpClose server with tlsConf := none, httpsServer := none })

end Web

inductive Event where
  | setTlsCallback (set : Bool)
  | startHttp (a : Answers)
  | startHttps (a : Answers)
  | stopHttp
  | stopHttps
  deriving DecidableEq

def step (w : Web) : Event → Web
  | .setTlsCallback set => { w with tlsCallback := set }
  | .startHttp a => (w.startHttp a).2
  | .startHttps a => (w.startHttps a).2
  | .stopHttp => w.stopHttp.2
  | .stopHttps => w.stopHttps.2

/-- The library gives out nothing that it has given out before and has not got back. -/
def Answers.Fresh (w : Web) (a : Answers) : Prop :=
  (∀ pcb ∈ a.pcb, pcb ∉ w.pcbs) ∧ (∀ server ∈ a.listening, server ∉ w.pcbs) ∧ ∀ conf ∈ a.conf, conf ∉ w.confs

def Can (w : Web) : Event → Prop
  | .startHttp a | .startHttps a => a.Fresh w
  | _ => True

/-! ## What is lost -/

/-- The control block of a `start_http` that cannot bind. -/
def lostPcb (w : Web) : Event → List Nat
  | .startHttp a => if w.httpServer.isNone && !a.bound then a.pcb.toList else []
  | _ => []

/-- The configuration of a server that `stop_https` stops. -/
def lostConf (w : Web) : Event → List Nat
  | .stopHttps => if w.httpsServer.isSome then w.tlsConf.toList else []
  | _ => []

/-- What is lost in a run. -/
def lost (loses : Web → Event → List Nat) : Web → List Event → List Nat
  | _, [] => []
  | w, e :: es => loses w e ++ lost loses (step w e) es

/-- What is in use, behind what has been lost. -/
structure Holds (ps cs : List Nat) (w : Web) : Prop where
  pcbs : Owns w.pcbs (ps ++ (w.httpServer.toList ++ w.httpsServer.toList))
  confs : Owns w.confs (cs ++ w.tlsConf.toList)
  tls : w.tlsConf.isSome = w.httpsServer.isSome
  tame : w.wild = false

/-! ## What a start and a stop can come to -/

theorem altcpClose_given (w : Web) (pcb : Nat) : { w with pcbs := pcb :: w.pcbs }.altcpClose pcb = w := by
  simp [Web.altcpClose]

theorem altcpClose_eq {w : Web} {pcb : Nat} (h : pcb ∈ w.pcbs) :
    w.altcpClose pcb = { w with pcbs := w.pcbs.erase pcb } := if_pos h

/-- `start_http`: nothing comes of it, or a control block that is lost, or a server. -/
theorem startHttp_cases (w : Web) (a : Answers) :
    ((w.startHttp a).2 = w ∧ lostPcb w (.startHttp a) = []) ∨
    (∃ pcb, a.pcb = some pcb ∧ lostPcb w (.startHttp a) = [pcb] ∧
      (w.startHttp a).2 = { w with pcbs := pcb :: w.pcbs }) ∨
    ∃ server, w.httpServer = none ∧ a.listening = some server ∧ lostPcb w (.startHttp a) = [] ∧
      (w.startHttp a).2 = { w with httpServer := some server, pcbs := server :: w.pcbs } := by
  by_cases hs : w.httpServer.isSome = true
  · refine .inl ⟨by rw [Web.startHttp, if_pos hs], ?_⟩
    simp [lostPcb, Option.isNone_iff_eq_none, Option.isSome_iff_ne_none.1 hs]
  · have hn : w.httpServer = none := by simpa using hs
    have hlost : lostPcb w (.startHttp a) = if a.bound then [] else a.pcb.toList := by
      cases hb : a.bound <;> simp [lostPcb, hn, hb]
    rw [Web.startHttp, if_neg hs, hlost]
    cases hp : a.pcb with
    | none => exact .inl ⟨rfl, by simp⟩
    | some pcb =>
      cases hb : a.bound with
      | false => exact .inr (.inl ⟨pcb, rfl, rfl, rfl⟩)
      | true =>
        cases hl : a.listening with
        | none => exact .inl ⟨altcpClose_given w pcb, rfl⟩
        | some server => exact .inr (.inr ⟨server, hn, rfl, rfl, by simp⟩)

/-- `start_https`: nothing comes of it, or a server with its configuration. -/
theorem startHttps_cases {w : Web} (a : Answers) (h : w.httpsServer = none → w.tlsConf = none) :
    (w.startHttps a).2 = w ∨
    ∃ conf server, w.httpsServer = none ∧ a.conf = some conf ∧ a.listening = some server ∧
      (w.startHttps a).2 = { w with
        tlsConf := some conf, confs := conf :: w.confs, httpsServer := some server, pcbs := server :: w.pcbs } := by
  unfold Web.startHttps
  split
  · next hcond =>
    have hn : w.httpsServer = none := by
      rw [Bool.and_eq_true, Bool.and_eq_true] at hcond
      exact Option.isNone_iff_eq_none.1 hcond.1.1
    have hback : { w with tlsConf := none } = w := by rw [← h hn]
    cases hc : a.conf with
    | none => exact .inl hback
    | some conf =>
      have hfree : { (Web.freeConfig { w with tlsConf := some conf, confs := conf :: w.confs } conf) with
          tlsConf := none } = w := by
        simpa [Web.freeConfig] using hback
      cases hp : a.pcb with
      | none => exact .inl hfree
      | some pcb =>
        have hgiven := congrArg (fun v : Web => { v.freeConfig conf with tlsConf := none })
          (altcpClose_given { w with tlsConf := some conf, confs := conf :: w.confs } pcb)
        cases hb : a.bound with
        | false => exact .inl (hgiven.trans hfree)
        | true =>
          cases hl : a.listening with
          | none => exact .inl (hgiven.trans hfree)
          | some server => exact .inr ⟨conf, server, hn, rfl, rfl, by simp⟩
  · exact .inl rfl

/-! ## Runs -/

theorem Holds.startHttp {ps cs : List Nat} {w : Web} {a : Answers} (h : Holds ps cs w) (ha : a.Fresh w) :
    Holds (ps ++ lostPcb w (.startHttp a)) cs (w.startHttp a).2 := by
  rcases startHttp_cases w a with ⟨heq, hlost⟩ | ⟨pcb, hp, hlost, heq⟩ | ⟨server, hn, hl, hlost, heq⟩
  · rw [heq, hlost, List.append_nil]
    exact h
  · rw [heq, hlost]
    refine ⟨?_, h.confs, h.tls, h.tame⟩
    rw [List.append_assoc]
    exact (h.pcbs.give (ha.1 pcb hp)).reorder List.perm_middle.symm
  · rw [heq, hlost, List.append_nil]
    have hpcbs := h.pcbs
    rw [hn] at hpcbs
    exact ⟨(hpcbs.give (ha.2.1 server hl)).reorder List.perm_middle.symm, h.confs, h.tls, h.tame⟩

theorem Holds.startHttps {ps cs : List Nat} {w : Web} {a : Answers} (h : Holds ps cs w) (ha : a.Fresh w) :
    Holds ps cs (w.startHttps a).2 := by
  have hconf : w.httpsServer = none → w.tlsConf = none := by
    intro hn
    have htls := h.tls
    rw [hn] at htls
    exact Option.not_isSome_iff_eq_none.1 (by rw [htls]; simp)
  rcases startHttps_cases a hconf with heq | ⟨conf, server, hn, hc, hl, heq⟩
  · rw [heq]
    exact h
  · rw [heq]
    have hpcbs := h.pcbs
    have hconfs := h.confs
    rw [hn, Option.toList_none, List.append_nil] at hpcbs
    rw [hconf hn, Option.toList_none, List.append_nil] at hconfs
    refine ⟨?_, ?_, rfl, h.tame⟩
    · rw [← List.append_assoc]
      exact (hpcbs.give (ha.2.1 server hl)).reorder (List.perm_append_singleton server _).symm
    · exact (hconfs.give (ha.2.2 conf hc)).reorder (List.perm_append_singleton conf _).symm

theorem Holds.stopHttp {ps cs : List Nat} {w : Web} (h : Holds ps cs w) : Holds ps cs w.stopHttp.2 := by
  unfold Web.stopHttp
  cases hs : w.httpServer with
  | none => exact h
  | some server =>
    have hpcbs := h.pcbs
    rw [hs] at hpcbs
    dsimp only
    rw [altcpClose_eq hpcbs.mem]
    exact ⟨hpcbs.giveBack, h.confs, h.tls, h.tame⟩

theorem Holds.stopHttps {ps cs : List Nat} {w : Web} (h : Holds ps cs w) :
    Holds ps (cs ++ lostConf w .stopHttps) w.stopHttps.2 := by
  unfold Web.stopHttps lostConf
  cases hs : w.httpsServer with
  | none =>
    rw [Option.isSome_none, if_neg Bool.false_ne_true, List.append_nil]
    exact h
  | some server =>
    have hpcbs := h.pcbs
    rw [hs, ← List.append_assoc] at hpcbs
    dsimp only
    rw [altcpClose_eq hpcbs.mem, Option.isSome_some, if_pos rfl]
    refine ⟨?_, ?_, rfl, h.tame⟩
    · rw [← List.append_assoc]
      exact hpcbs.giveBack
    · rw [Option.toList_none, List.append_nil]
      exact h.confs

theorem holds_step {ps cs : List Nat} {w : Web} (h : Holds ps cs w) : ∀ e : Event, Can w e →
    Holds (ps ++ lostPcb w e) (cs ++ lostConf w e) (step w e)
  | .setTlsCallback set, _ => by
    have hset : Holds ps cs { w with tlsCallback := set } := ⟨h.pcbs, h.confs, h.tls, h.tame⟩
    simpa [step, lostPcb, lostConf] using hset
  | .startHttp _, ha => by simpa [step, lostConf] using h.startHttp ha
  | .startHttps _, ha => by simpa [step, lostPcb, lostConf] using h.startHttps ha
  | .stopHttp, _ => by simpa [step, lostPcb, lostConf] using h.stopHttp
  | .stopHttps, _ => by simpa [step, lostPcb] using h.stopHttps

theorem holds_run : ∀ (es : List Event) {ps cs : List Nat} {w : Web}, Holds ps cs w → Along step Can w es →
    Holds (ps ++ lost lostPcb w es) (cs ++ lost lostConf w es) (es.foldl step w)
  | [], ps, cs, _, h, _ => by
    rw [lost, lost, List.append_nil, List.append_nil]
    exact h
  | e :: es, _, _, _, h, hc => by
    rw [lost, lost, ← List.append_assoc, ← List.append_assoc]
    exact holds_run es (holds_step h e hc.1) hc.2

/-- **What is kept and what is lost**: in every run nothing is closed or freed that the library has not given out, or
twice; the control blocks that are out are those of the two servers and one for each `start_http` that could not bind,
all different; and the configurations that are out are that of the server that speaks TLS and one for each that was
stopped. -/
theorem kept_and_lost {es : List Event} (h : Along step Can {} es) :
    let w := es.foldl step {}
    w.wild = false ∧ w.tlsConf.isSome = w.httpsServer.isSome ∧
    Owns w.pcbs (lost lostPcb {} es ++ (w.httpServer.toList ++ w.httpsServer.toList)) ∧
    Owns w.confs (lost lostConf {} es ++ w.tlsConf.toList) := by
  have hstart : Holds [] [] {} := ⟨⟨.refl _, List.nodup_nil⟩, ⟨.refl _, List.nodup_nil⟩, rfl, rfl⟩
  have hrun := holds_run es hstart h
  exact ⟨hrun.tame, hrun.tls, hrun.pcbs, hrun.confs⟩

instance (w : Web) (a : Answers) : Decidable (a.Fresh w) :=
  decidable_of_iff (a.pcb.all (fun pcb => !w.pcbs.elem pcb) = true ∧
    a.listening.all (fun server => !w.pcbs.elem server) = true ∧ a.conf.all (fun conf => !w.confs.elem conf) = true)
    (by simp [Answers.Fresh, Option.all_eq_true])

instance decidableCan (w : Web) : ∀ e, Decidable (Can w e)
  | .startHttp a | .startHttps a => inferInstanceAs (Decidable (a.Fresh w))
  | .setTlsCallback _ | .stopHttp | .stopHttps => isTrue trivial

/-- The port is in use at first; then both servers are started, the one with TLS is renewed, and both are stopped. -/
def renewed : List Event :=
  [.startHttp { pcb := some 1, bound := false, listening := none }, .startHttp { pcb := some 2, listening := some 3 },
    .setTlsCallback true, .startHttps { conf := some 1, pcb := some 2, listening := some 4 }, .stopHttps,
    .startHttps { conf := some 2, pcb := some 2, listening := none },
    .startHttps { conf := some 3, pcb := some 2, listening := some 4 }, .stopHttp, .stopHttps]

theorem kept_and_lost_renewed :
    (renewed.foldl step {}).wild = false ∧
    (renewed.foldl step {}).tlsConf.isSome = (renewed.foldl step {}).httpsServer.isSome ∧
    Owns (renewed.foldl step {}).pcbs [1] ∧ Owns (renewed.foldl step {}).confs [1, 3] :=
  kept_and_lost (by decide +kernel : Along step Can {} renewed)

end Listeners
end Pico
