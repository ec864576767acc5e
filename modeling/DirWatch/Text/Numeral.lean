namespace DirWatch.Text

def decimal (n : Nat) : List Char := Nat.toDigits 10 n

def padded (width n : Nat) : List Char :=
  let digits := decimal n
  List.replicate (width - digits.length) '0' ++ digits

-- The digits at the front, `limit` at most, and what follows them.
def takeDigits (limit : Nat) (text : List Char) : List Char × List Char :=
  let digits := (text.take limit).takeWhile Char.isDigit
  (digits, text.drop digits.length)

def value (digits : List Char) : Nat := Nat.ofDigitChars 10 digits 0

def number? (limit : Nat) (text : List Char) : Option (Nat × List Char) :=
  match takeDigits limit text with
  | ([], _) => none
  | (digits, rest) => some (value digits, rest)

def anyNumber? (text : List Char) : Option (Nat × List Char) := number? text.length text

theorem value_decimal (n : Nat) : value (decimal n) = n := Nat.ofDigitChars_ten_toDigits

end DirWatch.Text
