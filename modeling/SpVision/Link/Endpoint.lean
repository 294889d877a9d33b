import Mathlib.Tactic.Ring

set_option autoImplicit false

/-!
# Endpoint strings

The two serial transports read the device and the rate out of one string, each with its own parser.
A string is the list of its characters.
-/
namespace SpVision
namespace SerialEndpoint

/-! ### The C library -/

/-- `std::string::find` -/
def find (s sub : List Char) (pos : ℕ) : Option ℕ :=
  (List.range (s.length + 1)).find? fun i => pos ≤ i ∧ sub.isPrefixOf (s.drop i)

def isSpace (c : Char) : Bool := c ∈ [' ', '\t', '\n', '\x0b', '\x0c', '\r']

def digits (s : List Char) : ℕ := (s.takeWhile Char.isDigit).foldl (fun n c => 10 * n + (c.toNat - '0'.toNat)) 0

/-- `std::strtol` with base 10, on a 64-bit `long`. -/
def strtol (s : List Char) : ℤ :=
  let value : ℤ := match s.dropWhile isSpace with
    | '-' :: rest => -digits rest
    | '+' :: rest => digits rest
    | rest => digits rest
  max (-2 ^ 63) (min (2 ^ 63 - 1) value)

/-- `static_cast<int>` -/
def toInt (n : ℤ) : ℤ := n.bmod (2 ^ 32)

def atoi (s : List Char) : ℤ := toInt (strtol s)

/-! ### The transports -/

def serialTag : List Char := "serial:".toList

def baudTag : List Char := "baud=".toList

/-- `IoSerialTransport::parse_endpoint`, from the `baud` of `open` on; the rate goes to `serial::Serial` as a
    `uint32_t`. -/
def parseEndpoint (endpoint : List Char) : Option (List Char × ℕ) :=
  let target :=
    if serialTag.isPrefixOf endpoint then
      match find endpoint ['?'] 0 with
      | none => endpoint.drop 7
      | some queryPos => (endpoint.drop 7).take (queryPos - 7)
    else endpoint
  if target = [] then none
  else
    let baud : ℤ := match find endpoint baudTag 0 with
      | none => 115200
      | some baudPos =>
        let parsed := strtol (endpoint.drop (baudPos + 5))
        if parsed > 0 then toInt parsed else 115200
    some (target, (baud % 2 ^ 32).toNat)

def mapBaud (baud : ℤ) : ℕ :=
  if baud = 9600 then 9600
  else if baud = 19200 then 19200
  else if baud = 38400 then 38400
  else if baud = 57600 then 57600
  else 115200

/-- The path that `SerialTransportPosix::open` hands to `::open`, and the rate it sets then. -/
def posixSettings (endpoint : List Char) : List Char × ℕ :=
  if serialTag.isPrefixOf endpoint then
    match find endpoint ['?'] 0 with
    | none => (endpoint.drop 7, mapBaud 115200)
    | some q =>
      let baud : ℤ := match find endpoint baudTag q with
        | none => 115200
        | some bpos => atoi (endpoint.drop (bpos + 5))
      ((endpoint.drop 7).take (q - 7), mapBaud baud)
  else (endpoint, mapBaud 115200)

/-- `::open` refuses an empty path. -/
def posixOpen (endpoint : List Char) : Option (List Char × ℕ) :=
  if (posixSettings endpoint).1 = [] then none else some (posixSettings endpoint)

/-! ### Where they agree -/

/-- The number behind the first `baud=` of the endpoint. -/
def firstBaud (endpoint : List Char) : Option ℤ :=
  (find endpoint baudTag 0).map fun i => strtol (endpoint.drop (i + 5))

/-- The number behind the first `baud=` of the query. -/
def queryBaud (endpoint : List Char) : Option ℤ :=
  if serialTag.isPrefixOf endpoint then
    (find endpoint ['?'] 0).bind fun q => (find endpoint baudTag q).map fun i => strtol (endpoint.drop (i + 5))
  else none

def slowRates : List ℤ := [9600, 19200, 38400, 57600]

/-- The rates that come of the number behind the first `baud=`, and of the one in the query. -/
def RatesAgree : Option ℤ → Option ℤ → Prop
  | none, _ => True
  | some n, none => n ≤ 0 ∨ n % 2 ^ 32 = 115200
  | some n, some m =>
    0 < n ∧ n % 2 ^ 32 ∈ slowRates ∧ m % 2 ^ 32 = n % 2 ^ 32 ∨
      (n ≤ 0 ∨ n % 2 ^ 32 = 115200) ∧ m % 2 ^ 32 ∉ slowRates

theorem find_none_of_none {s sub : List Char} (h : find s sub 0 = none) (pos : ℕ) : find s sub pos = none := by
  unfold find at h ⊢
  rw [List.find?_eq_none] at h ⊢
  intro i hi hfound
  apply h i hi
  rw [decide_eq_true_eq] at hfound ⊢
  exact ⟨Nat.zero_le i, hfound.2⟩

theorem queryBaud_of_none {endpoint : List Char} (h : firstBaud endpoint = none) : queryBaud endpoint = none := by
  rw [firstBaud, Option.map_eq_none_iff] at h
  rw [queryBaud]
  split_ifs
  · rw [Option.bind_eq_none_iff]
    intro q _
    rw [find_none_of_none h, Option.map_none]
  · rfl

/-- Both parsers take the same path. -/
def devicePath (endpoint : List Char) : List Char :=
  if serialTag.isPrefixOf endpoint then
    match find endpoint ['?'] 0 with
    | none => endpoint.drop 7
    | some q => (endpoint.drop 7).take (q - 7)
  else endpoint

def ioRate : Option ℤ → ℕ
  | none => 115200
  | some n => if n > 0 then (n % 2 ^ 32).toNat else 115200

def posixRate : Option ℤ → ℕ
  | none => 115200
  | some n => mapBaud (toInt n)

theorem toInt_emod (n : ℤ) : toInt n % 2 ^ 32 = n % 2 ^ 32 := Int.bmod_emod

theorem parseEndpoint_eq (endpoint : List Char) : parseEndpoint endpoint =
    if devicePath endpoint = [] then none else some (devicePath endpoint, ioRate (firstBaud endpoint)) := by
  have hrate : ((match find endpoint baudTag 0 with
      | none => 115200
      | some baudPos =>
        if strtol (endpoint.drop (baudPos + 5)) > 0 then toInt (strtol (endpoint.drop (baudPos + 5)))
        else (115200 : ℤ)) % 2 ^ 32).toNat = ioRate (firstBaud endpoint) := by
    rw [firstBaud]
    cases find endpoint baudTag 0 with
    | none => rfl
    | some baudPos =>
      rw [Option.map_some, ioRate]
      dsimp only
      split_ifs
      · rw [toInt_emod]
      · rfl
  rw [← hrate]
  rfl

theorem posixSettings_eq (endpoint : List Char) :
    posixSettings endpoint = (devicePath endpoint, posixRate (queryBaud endpoint)) := by
  rw [posixSettings, devicePath, queryBaud]
  split_ifs
  · cases find endpoint ['?'] 0 with
    | none => rfl
    | some q =>
      rw [Option.bind_some]
      dsimp only
      cases find endpoint baudTag q <;> rfl
  · rfl

theorem mapBaud_toInt (n : ℤ) :
    mapBaud (toInt n) = if n % 2 ^ 32 ∈ slowRates then (n % 2 ^ 32).toNat else 115200 := by
  have hint : ∀ v : ℤ, 0 ≤ v → v < 2 ^ 31 → (toInt n = v ↔ n % 2 ^ 32 = v) := by
    intro v hlow hhigh
    rw [toInt, Int.bmod_def]
    split_ifs <;> omega
  simp only [mapBaud, hint 9600 (by decide) (by decide), hint 19200 (by decide) (by decide),
    hint 38400 (by decide) (by decide), hint 57600 (by decide) (by decide), slowRates, List.mem_cons,
    List.not_mem_nil, or_false]
  split_ifs <;> omega

theorem rates_eq_iff (a b : Option ℤ) (h : a = none → b = none) : ioRate a = posixRate b ↔ RatesAgree a b := by
  cases a with
  | none =>
    rw [h rfl]
    exact iff_of_true rfl trivial
  | some n =>
    cases b with
    | none =>
      rw [ioRate, posixRate, RatesAgree]
      split_ifs <;> omega
    | some m =>
      rw [ioRate, posixRate, RatesAgree, mapBaud_toInt]
      simp only [slowRates, List.mem_cons, List.not_mem_nil, or_false]
      split_ifs <;> omega

/-- Both transports open the same device at the same rate, or neither opens one. -/
theorem open_alike_iff (endpoint : List Char) : parseEndpoint endpoint = posixOpen endpoint ↔
    devicePath endpoint = [] ∨ RatesAgree (firstBaud endpoint) (queryBaud endpoint) := by
  rw [parseEndpoint_eq, posixOpen, posixSettings_eq]
  dsimp only
  split_ifs with hpath
  · exact iff_of_true rfl (.inl hpath)
  · rw [← rates_eq_iff _ _ queryBaud_of_none, or_iff_right hpath, Option.some_inj, Prod.mk.injEq,
      and_iff_right rfl]

/-- A rate outside the table, a rate without a tag, and a path that looks like one. -/
theorem open_differently :
    parseEndpoint "serial:/dev/ttyUSB0?baud=921600".toList ≠ posixOpen "serial:/dev/ttyUSB0?baud=921600".toList ∧
    parseEndpoint "/dev/ttyACM0?baud=9600".toList ≠ posixOpen "/dev/ttyACM0?baud=9600".toList ∧
    parseEndpoint "serial:/dev/baud=9600?baud=57600".toList ≠
      posixOpen "serial:/dev/baud=9600?baud=57600".toList := by
  decide +kernel

example : parseEndpoint "serial:/dev/ttyACM0?baud=115200".toList = some ("/dev/ttyACM0".toList, 115200) := by
  decide +kernel

end SerialEndpoint
end SpVision
