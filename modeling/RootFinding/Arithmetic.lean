import RootFinding.Scalar
import RootFinding.Fault

namespace RootFinding.Arithmetic

open Scalar

variable {α : Type}

def divide [Scalar α] (a b : α) : Except Fault α :=
  if b == 0 then .error .divisionByZero else .ok (a / b)

def power [Scalar α] (a : α) (k : Nat) : Except Fault α :=
  let r := pow a k
  if isFinite a && isInfinite r then .error .powerRange else .ok r

def squareRoot [Scalar α] (a : α) : Except Fault α :=
  if a < 0 then .error .functionDomain else .ok (sqrt a)

variable [Elementary α]

def exp (a : α) : Except Fault α :=
  let r := Elementary.exp a
  if isFinite a && isInfinite r then .error .functionRange else .ok r

def log (a : α) : Except Fault α :=
  if a ≤ 0 then .error .functionDomain else .ok (Elementary.log a)

def sin (a : α) : Except Fault α :=
  if isInfinite a then .error .functionDomain else .ok (Elementary.sin a)

def cos (a : α) : Except Fault α :=
  if isInfinite a then .error .functionDomain else .ok (Elementary.cos a)

end RootFinding.Arithmetic
