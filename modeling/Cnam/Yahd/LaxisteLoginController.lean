/-
  `LaxisteLoginController`, a login controller for tests: any login of two characters, with
  itself as the password.
-/
import Cnam.Yahd.LoginAccess

namespace Yahd

open Php

/-- A truth value converted to a string. -/
def ofBool (b : Bool) : Str := if b then "1".toList else []

/-- `LaxisteLoginController`. -/
def laxisteLoginController : LoginController where
  -- `strlen($login >= 2)`: the length is that of the truth value
  isValidLogin login := (ofBool (decide ((toNumber login).AtLeast 2))).length ≠ 0
  isValidPassword login password := looseEq (.str login) (.str password)

theorem laxiste_isValidLogin (login : Str) :
    laxisteLoginController.isValidLogin login = true ↔ (toNumber login).AtLeast 2 := by
  show decide ((ofBool (decide ((toNumber login).AtLeast 2))).length ≠ 0) = true ↔ _
  by_cases h : (toNumber login).AtLeast 2 <;> simp [ofBool, h]

theorem toNumber_of_numeric {s : Str} {x : Number} (h : numeric? s = some x) :
    toNumber s = x := by
  unfold numeric? at h
  unfold toNumber
  split at h
  · rename_i hlead
    rw [hlead]
    exact Option.some.inj h
  · exact absurd h (by simp)

/-- **What the controller accepts is what it should** for a login with itself as the password when
    the login is a number from two on exactly if it has two characters; and for another password
    unless both are numeric strings of equal numbers and that of the login is at least two. -/
theorem laxiste_iff (login password : Str) :
    ((laxisteLoginController.isValidLogin login = true ∧
        laxisteLoginController.isValidPassword login password = true) ↔
      2 ≤ login.length ∧ password = login) ↔
    (password = login ∧ ((toNumber login).AtLeast 2 ↔ 2 ≤ login.length) ∨
      password ≠ login ∧
        ¬∃ x y, numeric? login = some x ∧ numeric? password = some y ∧
          x.AtLeast 2 ∧ x.Equals y) := by
  rw [laxiste_isValidLogin]
  by_cases h : password = login
  · subst h
    have hrefl : laxisteLoginController.isValidPassword password password = true :=
      looseEq_refl (.str password)
    simp [hrefl]
  · have hpass : laxisteLoginController.isValidPassword login password = true ↔
        ∃ x y, numeric? login = some x ∧ numeric? password = some y ∧ x.Equals y := by
      refine (looseEq_str_iff login password).trans (or_iff_right ?_)
      exact fun heq => h heq.symm
    have hboth : ((toNumber login).AtLeast 2 ∧
          ∃ x y, numeric? login = some x ∧ numeric? password = some y ∧ x.Equals y) ↔
        ∃ x y, numeric? login = some x ∧ numeric? password = some y ∧
          x.AtLeast 2 ∧ x.Equals y := by
      constructor
      · rintro ⟨hge, x, y, hlogin, hpassword, heq⟩
        rw [toNumber_of_numeric hlogin] at hge
        exact ⟨x, y, hlogin, hpassword, hge, heq⟩
      · rintro ⟨x, y, hlogin, hpassword, hge, heq⟩
        refine ⟨?_, x, y, hlogin, hpassword, heq⟩
        rwa [toNumber_of_numeric hlogin]
    rw [hpass, hboth]
    simp [h]

/-- A login that is no number is refused with itself as the password. -/
theorem laxiste_abc :
    ¬((laxisteLoginController.isValidLogin "abc".toList = true ∧
        laxisteLoginController.isValidPassword "abc".toList "abc".toList = true) ↔
      2 ≤ "abc".toList.length ∧ "abc".toList = "abc".toList) := by
  decide +kernel

/-- One digit is enough, and other notations of the number are accepted as the password, also of one
    that is rounded to it. -/
example : laxisteLoginController.isValidLogin "2".toList = true ∧
    laxisteLoginController.isValidPassword "10".toList "1e1".toList = true ∧
    laxisteLoginController.isValidPassword "2.00000000000000001".toList
      "2.00000000000000002".toList = true := by
  decide +kernel

end Yahd
