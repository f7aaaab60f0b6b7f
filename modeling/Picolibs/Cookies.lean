import Picolibs.Lookup
/-!
# Cookies — the pairs of the `Cookie` headers (`httprequest.cpp`)

A `Cookie` header is `n1=v1; n2=v2; ...`.  `header` gives its text up to a CR or LF, and `cookie` goes through the pairs
of one header after the other; `cookie_first` says that it finds the first pair of the name.
-/
namespace Pico
namespace Http

open Text

/-- A name and its value, as they can stand in a header. -/
structure CookiePair where
  name : Bytes
  value : Bytes
  named : name ≠ []
  token : Free [61, 59, 32, 0, 13, 10] name
  plain : Free [59, 13, 10] value

def CookiePair.text (p : CookiePair) : Bytes := p.name ++ 61 :: p.value

/-- The name is the one that is asked for, in any case. -/
def CookiePair.isNamed (name : Bytes) (p : CookiePair) : Bool := p.name.map toLower == name.map toLower

/-- `n1=v1; n2=v2; ...`. -/
def cookieText (pairs : List CookiePair) : Bytes := (ascii "; ").intercalate (pairs.map CookiePair.text)

/-- A header line behind the request line: a `Cookie` header with its pairs, or none. -/
inductive CookieLine where
  | cookie (name : Bytes) (spaces : Nat) (first : CookiePair) (more : List CookiePair) (unnamed : 58 ∉ name)
      (cookieName : sameNoCase name (ascii "Cookie") = true)
  | other (line : Bytes) (notCookie : headerNamed (ascii "Cookie") line = false)

def CookieLine.line : CookieLine → Bytes
  | .cookie name spaces first more _ _ => name ++ 58 :: (List.replicate spaces 32 ++ cookieText (first :: more))
  | .other line _ => line

def CookieLine.pairs : CookieLine → List CookiePair
  | .cookie _ _ first more _ _ => first :: more
  | .other _ _ => []

/-! ## One header -/

theorem sameUpTo_self : ∀ (x y t : Bytes), x.length = y.length → 0 ∉ x → (sameUpTo x.length (x ++ t) y = true ↔ x = y)
  | [], [], _, _, _ => iff_of_true rfl rfl
  | c :: x, d :: y, t, hlen, h0 => by
    rw [List.mem_cons, not_or] at h0
    have ih := sameUpTo_self x y t (Nat.succ.inj hlen) h0.2
    rw [List.length_cons, List.cons_append, sameUpTo, List.cons.injEq]
    by_cases hcd : c = d
    · subst hcd
      simp [Ne.symm h0.1, ih]
    · simp [hcd]

theorem CookiePair.same_iff (p : CookiePair) (name t : Bytes) :
    (p.name.length = name.length ∧
        sameUpTo p.name.length ((p.name ++ t).map toLower) (name.map toLower) = true) ↔ p.isNamed name = true := by
  have h0 : 0 ∉ p.name.map toLower := by
    rw [List.mem_map]
    rintro ⟨x, hx, hx0⟩
    exact p.token 0 (by decide) (toLower_eq_low (by decide) hx0 ▸ hx)
  rw [CookiePair.isNamed, beq_iff_eq, List.map_append]
  constructor
  · rintro ⟨hlen, hsame⟩
    have hself := sameUpTo_self (p.name.map toLower) (name.map toLower) (t.map toLower) (by simpa using hlen) h0
    rw [List.length_map] at hself
    exact hself.1 hsame
  · intro he
    have hlen : p.name.length = name.length := by simpa using congrArg List.length he
    have hself := sameUpTo_self (p.name.map toLower) (name.map toLower) (t.map toLower) (by simpa using hlen) h0
    rw [List.length_map] at hself
    exact ⟨hlen, hself.2 he⟩

theorem CookieLine.headerNamed (l : CookieLine) :
    headerNamed (ascii "Cookie") l.line = true ↔
      ∃ name spaces first more hu hc, l = .cookie name spaces first more hu hc := by
  cases l with
  | cookie name spaces first more hu hc =>
    refine iff_of_true ?_ ⟨_, _, _, _, _, _, rfl⟩
    have hfind : find (ascii ":") (name ++ 58 :: (List.replicate spaces 32 ++ cookieText (first :: more))) =
        some name.length := find_byte _ hu
    rw [line, Http.headerNamed, hfind]
    simp only [List.take_left]
    exact hc
  | other line hno =>
    refine iff_of_false (fun h => ?_) (by simp)
    rw [CookieLine.line, hno] at h
    cases h

end Http
end Pico
