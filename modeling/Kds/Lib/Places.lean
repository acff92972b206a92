/-
  Kds.Lib.Places

  Tokens and the places that hold them, each token at one place at most.  The rules say which
  moves keep that: places may lose tokens or trade names, one token may move, and tokens that are
  nowhere may be put at one place.
-/

import Mathlib.Logic.Equiv.Basic

namespace Kds.Lib

variable {π τ : Type*}

/-- No token is at two places. -/
def Exclusive (held : π → τ → Prop) : Prop := ∀ t p q, held p t → held q t → p = q

namespace Exclusive

variable {held held' : π → τ → Prop}

theorem rename (h : Exclusive held) (e : π ≃ π) (hfrom : ∀ p t, held' p t → held (e p) t) :
    Exclusive held' :=
  fun t p q hp hq => e.injective (h t _ _ (hfrom p t hp) (hfrom q t hq))

theorem mono (h : Exclusive held) (hfrom : ∀ p t, held' p t → held p t) : Exclusive held' :=
  h.rename (Equiv.refl π) hfrom

theorem put (h : Exclusive held) (p : π) (hfrom : ∀ q t, held' q t → held q t ∨ q = p)
    (hnew : ∀ q t, held' p t → held' q t → held q t → held p t ∨ q = p) : Exclusive held' := by
  intro t q r hq hr
  have hmain : ∀ q r, held' q t → held' r t → q = p → r = p ∨ q = r := by
    rintro q r hq hr rfl
    rcases hfrom r t hr with hold | hthere
    · rcases hnew r t hq hr hold with hboth | hthere
      · exact .inr (h t _ _ hboth hold)
      · exact .inl hthere
    · exact .inl hthere
  rcases hfrom q t hq with hqold | hqp
  · rcases hfrom r t hr with hrold | hrp
    · exact h t q r hqold hrold
    · rcases hmain r q hr hq hrp with hqp | heq
      · exact hqp.trans hrp.symm
      · exact heq.symm
  · rcases hmain q r hq hr hqp with hrp | heq
    · exact hqp.trans hrp.symm
    · exact heq

end Exclusive

end Kds.Lib
