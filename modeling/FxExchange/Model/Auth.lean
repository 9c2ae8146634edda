import FxExchange.Lib.Custody
import FxExchange.Lib.Interleaving
import FxExchange.Lib.Utf8
import FxExchange.Model.Entities

/-
# Accounts

`auth/auth.service.ts`, the DTOs of its three endpoints and `users/users.service.ts`.  A request
body has its fields as strings, as `@IsString` demands.  Log lines are left out.
-/

namespace FxExchange

open Prog (tryCatch throwIf)

/-! ## Strings -/

/-- White space and line terminators of JavaScript. -/
def isSpace (c : Char) : Bool :=
  let n := c.toNat
  (9 ≤ n && n ≤ 13) || n = 0x20 || n = 0xA0 || n = 0x1680 || (0x2000 ≤ n && n ≤ 0x200A) ||
    n = 0x2028 || n = 0x2029 || n = 0x202F || n = 0x205F || n = 0x3000 || n = 0xFEFF

/-- `String.prototype.trim`. -/
def trim (value : String) : String :=
  String.ofList ((value.toList.dropWhile isSpace).reverse.dropWhile isSpace).reverse

/-- `value.length`: UTF-16 code units. -/
def utf16Length (value : String) : ℕ :=
  (value.toList.map fun c => if c.toNat < 0x10000 then 1 else 2).sum

/-- `U+FE0E` and `U+FE0F`, which the length does not count. -/
def isVariationSelector (c : Char) : Bool := c.toNat = 0xFE0E || c.toNat = 0xFE0F

/-- The characters that are written with a variation selector behind them. -/
def presentationSequences : List Char → ℕ
  | c :: c' :: rest =>
    (if isVariationSelector c' && !isVariationSelector c then 1 else 0) +
      presentationSequences (c' :: rest)
  | _ => 0

/-- `isLength`: such a pair counts once. -/
def isLength (value : String) (min max : ℕ) : Bool :=
  let length := value.toList.length - presentationSequences value.toList
  min ≤ length && length ≤ max

/-- `IsNotEmpty` on a string. -/
def isNotEmpty (value : String) : Bool := value ≠ ""

/-- What `.` in a pattern does not match. -/
def isLineTerminator (c : Char) : Bool :=
  c = '\n' || c = '\r' || c.toNat = 0x2028 || c.toNat = 0x2029

/-- The pattern of `RegisterDto`.  It is not anchored in front, and its `.*$` takes in what is
behind the last line terminator, so that is where its look-aheads find their characters. -/
def isStrong (password : String) : Bool :=
  let line := password.toList.reverse.takeWhile fun c => !isLineTerminator c
  line.any (fun c => c.isDigit || !(c.isAlphanum || c = '_')) && line.any Char.isUpper &&
    line.any Char.isLower

/-! ## What the service calls -/

/-- What `bcrypt` reads of a text: the first 72 bytes. -/
def bcryptKey (data : String) : List UInt8 := (Utf8.encode data).take 72

/-- The `bcrypt` package.  A hash is not empty, and it is accepted for the texts that agree with
the one it was made of as far as they are read. -/
structure Bcrypt where
  hash : (salt rounds : ℕ) → (data : String) → String
  compare : (data hash : String) → Bool
  hash_ne : ∀ salt rounds data, hash salt rounds data ≠ ""
  compare_hash : ∀ salt rounds data data',
    compare data' (hash salt rounds data) ↔ bcryptKey data' = bcryptKey data

/-- What the auth endpoints call and is not in the repository: hashing, the checks of addresses,
and the signing of tokens. -/
structure AuthEnv where
  bcrypt : Bcrypt
  /-- `String.prototype.toLowerCase`. -/
  toLowerCase : String → String
  /-- `isEmail` of the `validator` package. -/
  isEmail : String → Bool
  /-- `JwtService.signAsync`, at a time. -/
  sign : (now : ℕ) → (sub : UserId) → (email : String) → String

/-! ## Requests -/

/-- One decorator of a field, and the message for a value that it refuses. -/
structure Constraint where
  holds : Bool
  message : String

/-- The `ValidationPipe` of `main.ts`: the messages of a field are joined by commas, those of
the fields by semicolons. -/
def validationPipe (fields : List (List Constraint)) : Except Exn Unit :=
  let errors := fields.filterMap fun constraints =>
    let refused := constraints.filter fun c => !c.holds
    if refused.isEmpty then none else some (", ".intercalate (refused.map Constraint.message))
  if errors.isEmpty then .ok () else .error (.badRequest ("; ".intercalate errors))

/-- The message of `@Length(min, max)`, which measures the value in another way than the check
does. -/
def lengthMessage (property value : String) (min max : ℕ) : String :=
  if utf16Length value < min then
    property ++ " must be longer than or equal to " ++ toString min ++ " characters"
  else if max < utf16Length value then
    property ++ " must be shorter than or equal to " ++ toString max ++ " characters"
  else property ++ " must be longer than or equal to " ++ toString min ++
    " and shorter than or equal to " ++ toString max ++ " characters"

/-- The body of `POST /auth/register`. -/
structure RegisterDto where
  email : String
  password : String

/-- The body of `POST /auth/verify`. -/
structure VerifyOtpDto where
  email : String
  otp : String

/-- The body of `POST /auth/signin`. -/
structure SigninDto where
  email : String
  password : String

/-- The `@Transform` of `RegisterDto.email`. -/
def AuthEnv.normalize (env : AuthEnv) (email : String) : String := env.toLowerCase (trim email)

-- decorators apply from the last one to the first, and so do their messages come

/-- The decorators of `RegisterDto`, field by field. -/
def RegisterDto.constraints (env : AuthEnv) (dto : RegisterDto) : List (List Constraint) :=
  [[⟨isNotEmpty dto.email, "email should not be empty"⟩,
    ⟨env.isEmail dto.email, "email must be an email"⟩],
   [⟨isStrong dto.password, "Password is too weak. It must contain at least one uppercase letter, "
      ++ "one lowercase letter, one number and one special character."⟩,
    ⟨isLength dto.password 8 100, lengthMessage "password" dto.password 8 100⟩,
    ⟨isNotEmpty dto.password, "password should not be empty"⟩]]

/-- The decorators of `VerifyOtpDto`, field by field. -/
def VerifyOtpDto.constraints (env : AuthEnv) (dto : VerifyOtpDto) : List (List Constraint) :=
  [[⟨isNotEmpty dto.email, "Invalid OTP"⟩, ⟨env.isEmail dto.email, "Invalid OTP"⟩],
   [⟨isLength dto.otp 6 6, "Invalid OTP"⟩, ⟨isNotEmpty dto.otp, "Invalid OTP"⟩]]

/-- The decorators of `SigninDto`, field by field. -/
def SigninDto.constraints (env : AuthEnv) (dto : SigninDto) : List (List Constraint) :=
  [[⟨isNotEmpty dto.email, "Invalid credentials"⟩, ⟨env.isEmail dto.email, "Invalid credentials"⟩],
   [⟨isNotEmpty dto.password, "Invalid credentials"⟩]]

/-- A request, with the fields of its body. -/
inductive AuthRequest
  | register (email password : String)
  | verifyOtp (email otp : String)
  | signin (email password : String)

/-- What an auth endpoint answers. -/
inductive AuthResponse
  | message (text : String)
  | accessToken (token : String)
  deriving DecidableEq

/-! ## Commands -/

/-- A user as `findByEmail` reads it: `passwordHash` is not selected. -/
structure UserRow where
  id : UserId
  email : String
  isVerified : Bool
  deriving DecidableEq

/-- A row with the column that only `findByEmailWithPassword` selects. -/
structure User extends UserRow where
  passwordHash : String
  deriving DecidableEq

/-- What `AuthService` calls: the users, `bcrypt`, Redis, the mail queue and the tokens. -/
inductive AuthCmd
  | findByEmail (email : String)
  | findByEmailWithPassword (email : String)
  | create (email passwordHash : String) (isVerified : Bool)
  | update (id : UserId) (isVerified : Bool)
  | hash (data : String) (rounds : ℕ)
  | compare (data hash : String)
  /-- `crypto.randomInt`: the upper bound is excluded. -/
  | randomInt (min max : ℕ)
  /-- `otp:<id>`, and `otp:attempts:<id>` below. -/
  | getOtp (id : UserId)
  | setOtp (id : UserId) (hash : String) (ex : ℕ)
  | delOtp (id : UserId)
  | getAttempts (id : UserId)
  | setAttempts (id : UserId) (value ex : ℕ)
  | incrAttempts (id : UserId)
  | delAttempts (id : UserId)
  /-- `MailService.sendOtp`: a job for the mail queue. -/
  | sendOtp (email otp : String)
  | signAsync (sub : UserId) (email : String)
  deriving DecidableEq

/-- The answer to a command. -/
@[simp] abbrev AuthCmd.Ret : AuthCmd → Type
  | findByEmail _ => Option UserRow
  | findByEmailWithPassword _ => Option User
  | create _ _ _ => UserRow
  | update _ _ => Unit
  | hash _ _ => String
  | compare _ _ => Bool
  | randomInt _ _ => ℕ
  | getOtp _ => Option String
  | setOtp _ _ _ => Unit
  | delOtp _ => Unit
  | getAttempts _ => Option ℕ
  | setAttempts _ _ _ => Unit
  | incrAttempts _ => Unit
  | delAttempts _ => Unit
  | sendOtp _ _ => Unit
  | signAsync _ _ => String

/-- What runs for a request of the auth controller. -/
abbrev Auth := Prog AuthCmd.Ret Exn

/-- Calls `c`. -/
def Auth.issue (c : AuthCmd) : Auth c.Ret := Prog.command c

/-! ## `auth/auth.service.ts` -/

namespace AuthService

/-- `AuthService.register`. -/
def register (dto : RegisterDto) : Auth AuthResponse := do
  let existingUser : Option UserRow ← Auth.issue (.findByEmail dto.email)
  throwIf existingUser.isSome (.badRequest "Email already exists")
  let passwordHash : String ← Auth.issue (.hash dto.password 12)
  let user : UserRow ← Auth.issue (.create dto.email passwordHash false)
  let otp : ℕ ← Auth.issue (.randomInt 100000 999999)
  let hashedOtp : String ← Auth.issue (.hash (toString otp) 10)
  Auth.issue (.setOtp user.id hashedOtp 600)
  Auth.issue (.setAttempts user.id 0 900)
  -- not awaited; a failure is only logged
  tryCatch (Auth.issue (.sendOtp user.email (toString otp))) fun _ => pure ()
  return .message "Verification email sent"

/-- The one answer to a code that is not accepted. -/
def invalidOtp : Exn := .badRequest "Invalid OTP"

/-- From `bcrypt.compare` on. -/
def compareOtp (otp hashedOtp : String) (id : UserId) : Auth AuthResponse := do
  let isValid : Bool ← Auth.issue (.compare otp hashedOtp)
  if isValid then
    Auth.issue (.update id true)
    Auth.issue (.delOtp id)
    Auth.issue (.delAttempts id)
    return .message "Email verified successfully"
  else
    Auth.issue (.incrAttempts id)
    .throw invalidOtp

/-- `!hashedOtp || (attempts && parseInt(attempts) >= 5)` refuses. -/
def admits (hashedOtp : Option String) (attempts : Option ℕ) : Option String :=
  match hashedOtp with
  | none => none
  | some hash => if hash = "" ∨ ∃ n ∈ attempts, 5 ≤ n then none else some hash

/-- `AuthService.verifyOtp`. -/
def verifyOtp (dto : VerifyOtpDto) : Auth AuthResponse := do
  let user : Option UserRow ← Auth.issue (.findByEmail dto.email)
  match user with
  | none => .throw invalidOtp
  | some user =>
    throwIf user.isVerified invalidOtp
    let hashedOtp : Option String ← Auth.issue (.getOtp user.id)
    let attempts : Option ℕ ← Auth.issue (.getAttempts user.id)
    match admits hashedOtp attempts with
    | none => .throw invalidOtp
    | some hashedOtp => compareOtp dto.otp hashedOtp user.id

/-- `AuthService.signin`. -/
def signin (dto : SigninDto) : Auth AuthResponse := do
  let user : Option User ← Auth.issue (.findByEmailWithPassword dto.email)
  match user with
  | none => .throw (.badRequest "Invalid credentials")
  | some user =>
    throwIf (user.passwordHash = "") (.badRequest "Invalid credentials")
    let isPasswordValid : Bool ← Auth.issue (.compare dto.password user.passwordHash)
    throwIf (¬ isPasswordValid) (.badRequest "Invalid credentials")
    throwIf (¬ user.isVerified) (.badRequest "Please verify your email first")
    let token : String ← Auth.issue (.signAsync user.id user.email)
    return .accessToken token

end AuthService

/-- The validation of a body, and then the service. -/
def validated {α : Type} (fields : List (List Constraint)) (service : Auth α) : Auth α :=
  match validationPipe fields with
  | .ok _ => service
  | .error e => .throw e

/-- What an endpoint runs for a request. -/
def AuthRequest.program (env : AuthEnv) : AuthRequest → Auth AuthResponse
  | .register email password =>
    let dto : RegisterDto := { email := env.normalize email, password }
    validated (dto.constraints env) (AuthService.register dto)
  | .verifyOtp email otp =>
    let dto : VerifyOtpDto := { email, otp }
    validated (dto.constraints env) (AuthService.verifyOtp dto)
  | .signin email password =>
    let dto : SigninDto := { email, password }
    validated (dto.constraints env) (AuthService.signin dto)

/-- The address that a request is about: what it looks up or stores. -/
def AuthRequest.address (env : AuthEnv) : AuthRequest → String
  | .register email _ => env.normalize email
  | .verifyOtp email _ => email
  | .signin email _ => email

/-! ## Postgres and Redis -/

/-- An OTP mail in the queue. -/
structure Mail where
  email : String
  otp : String
  deriving DecidableEq

/-- `UPDATE users SET "isVerified" = … WHERE id = …`, for one row. -/
def User.update (id : UserId) (isVerified : Bool) (user : User) : User :=
  if user.id = id then { user with isVerified } else user

/-- The accounts, the codes with their counters, and the mails. -/
structure AuthStore where
  users : List User
  /-- The keys `otp:<id>`, each with its deadline. -/
  otps : UserId → Option (String × ℕ)
  /-- The keys `otp:attempts:<id>`; one that INCR has made stays for good. -/
  attempts : UserId → Option (ℕ × Option ℕ)
  mails : List Mail
  now : ℕ
  nextId : UserId

namespace AuthStore

/-- Before the first request. -/
def empty : AuthStore where
  users := []
  otps _ := none
  attempts _ := none
  mails := []
  now := 0
  nextId := 1

/-- The row with this address. -/
def findUser (s : AuthStore) (email : String) : Option User :=
  s.users.find? fun user => user.email = email

/-- The counter, unless it has expired. -/
def liveAttempts (s : AuthStore) (id : UserId) : Option ℕ :=
  match s.attempts id with
  | none => none
  | some (n, none) => some n
  | some (n, some deadline) => if s.now < deadline then some n else none

/-- INCR: a counter that is not there begins at one, and without a deadline. -/
def incr (s : AuthStore) (id : UserId) : ℕ × Option ℕ :=
  match s.liveAttempts id with
  | none => (1, none)
  | some n => (n + 1, (s.attempts id).bind Prod.snd)

/-- The effect and the answer of a command; `x` is what randomness there is. -/
def exec (env : AuthEnv) (s : AuthStore) (x : ℕ) : (c : AuthCmd) → AuthStore × Except Exn c.Ret
  | .findByEmail email => (s, .ok ((s.findUser email).map User.toUserRow))
  | .findByEmailWithPassword email => (s, .ok (s.findUser email))
  | .create email passwordHash isVerified =>
    if (s.findUser email).isSome then (s, .error .uniqueViolation)
    else
      let user : User := { id := s.nextId, email, isVerified, passwordHash }
      ({ s with users := s.users ++ [user], nextId := s.nextId + 1 }, .ok user.toUserRow)
  | .update id isVerified => ({ s with users := s.users.map (User.update id isVerified) }, .ok ())
  | .hash data rounds => (s, .ok (env.bcrypt.hash x rounds data))
  | .compare data hash => (s, .ok (env.bcrypt.compare data hash))
  | .randomInt min max => (s, .ok (min + x % (max - min)))
  | .getOtp id => (s, .ok (Custody.live (s.otps id) s.now))
  | .setOtp id hash ex =>
    ({ s with otps := Function.update s.otps id (some (hash, s.now + ex * 1000)) }, .ok ())
  | .delOtp id => ({ s with otps := Function.update s.otps id none }, .ok ())
  | .getAttempts id => (s, .ok (s.liveAttempts id))
  | .setAttempts id value ex =>
    ({ s with attempts := Function.update s.attempts id (some (value, some (s.now + ex * 1000))) },
      .ok ())
  | .incrAttempts id => ({ s with attempts := Function.update s.attempts id (some (s.incr id)) },
      .ok ())
  | .delAttempts id => ({ s with attempts := Function.update s.attempts id none }, .ok ())
  | .sendOtp email otp => ({ s with mails := s.mails ++ [{ email, otp }] }, .ok ())
  | .signAsync sub email => (s, .ok (env.sign s.now sub email))

end AuthStore

/-! ## The running service -/

/-- What a request has come across. -/
structure Visit where
  req : AuthRequest
  /-- The user that `findByEmail` has found. -/
  found : Option UserRow := none
  /-- The user that `create` has stored, and the code drawn for it. -/
  created : Option UserRow := none
  code : Option String := none
  /-- When `otp:<id>` was set. -/
  storedAt : Option ℕ := none
  /-- `otp:attempts:<id>` was set. -/
  reset : Bool := false
  /-- What was read under `otp:<id>`. -/
  hash : Option String := none
  /-- What was read under `otp:attempts:<id>`, once it has been read. -/
  attempts : Option (Option ℕ) := none
  /-- `bcrypt.compare` has been called. -/
  compared : Bool := false
  /-- INCR has been carried out, or the UPDATE of `isVerified`. -/
  counted : Bool := false
  verified : Bool := false
  /-- `otp:<id>` was deleted. -/
  dropped : Bool := false
  /-- A command has failed. -/
  failed : Bool := false

/-- What the request knows after a command and its answer. -/
def Visit.after (s : AuthStore) (l : Visit) : (c : AuthCmd) → Except Exn c.Ret → Visit
  | .findByEmail _, .ok found => { l with found }
  | .create _ _ _, .ok user => { l with created := some user }
  | .randomInt _ _, .ok n => { l with code := some (toString n) }
  | .setOtp _ _ _, .ok _ => { l with storedAt := some s.now }
  | .setAttempts _ _ _, .ok _ => { l with reset := true }
  | .getOtp _, .ok hash => { l with hash }
  | .getAttempts _, .ok attempts => { l with attempts := some attempts }
  | .compare _ _, .ok _ => { l with compared := true }
  | .compare _ _, .error _ => { l with compared := true, failed := true }
  | .incrAttempts _, .ok _ => { l with counted := true }
  | .update _ _, .ok _ => { l with verified := true }
  | .delOtp _, .ok _ => { l with dropped := true }
  | _, .ok _ => l
  | _, .error _ => { l with failed := true }

/-- The auth endpoints over one Postgres and one Redis. -/
def authServer (env : AuthEnv) :
    Interleaving.Server AuthCmd.Ret Exn AuthResponse AuthRequest Visit AuthStore ℕ where
  program := AuthRequest.program env
  start req := { req }
  after := Visit.after
  exec := AuthStore.exec env
  unavailable := .unavailable
  wait s ms := { s with now := s.now + ms }

/-- A state of the auth endpoints, and what happens to them. -/
abbrev AuthState := Interleaving.Pool AuthCmd.Ret Exn AuthResponse Visit AuthStore

/-- A request that is being worked on. -/
abbrev AuthThread := Interleaving.Thread AuthCmd.Ret Exn AuthResponse Visit

/-- A request arrives, issues a command, fails or dies; or time passes. -/
abbrev AuthEvent := Interleaving.Event AuthRequest ℕ

namespace AuthState

/-- No account, and no request yet. -/
def initial : AuthState := Interleaving.Pool.initial .empty

/-- Runs of the auth endpoints, all of whose steps satisfy `ok`. -/
abbrev Runs (env : AuthEnv) (ok : AuthState → AuthEvent → Prop) : AuthState → AuthState → Prop :=
  Transition.Runs (authServer env).step ok

/-- The accounts come to `s` in some run. -/
def Reachable (env : AuthEnv) (s : AuthState) : Prop := Runs env Transition.anyStep initial s

end AuthState

/-! ## Events of concrete runs -/

/-- The characters of a key, each of its bytes as one. -/
def plainKey (data : String) : String :=
  String.ofList ((bcryptKey data).map fun b => Char.ofNat b.toNat)

lemma plainKey_eq_iff {data data' : String} :
    plainKey data = plainKey data' ↔ bcryptKey data = bcryptKey data' := by
  have hvalid : ∀ n < 256, (Char.ofNat n).toNat = n := by decide +kernel
  have hbyte (b b' : UInt8) (h : Char.ofNat b.toNat = Char.ofNat b'.toNat) : b = b' := by
    refine UInt8.toNat_inj.mp ?_
    rw [← hvalid b.toNat b.toNat_lt, h, hvalid b'.toNat b'.toNat_lt]
  refine ⟨fun h => ?_, fun h => by rw [plainKey, h, plainKey]⟩
  exact List.map_injective_iff.mpr hbyte (String.ofList_injective h)

/-- Hashes that can be read. -/
def plainBcrypt : Bcrypt where
  hash _ _ data := "$" ++ plainKey data
  compare data hash := hash = "$" ++ plainKey data
  hash_ne _ _ data h := by simpa using congrArg String.toList h
  compare_hash _ _ data data' := by simp [eq_comm, plainKey_eq_iff]

/-- An environment that can be computed with: hashes and tokens are plain texts. -/
def plainAuth : AuthEnv where
  bcrypt := plainBcrypt
  toLowerCase text := String.ofList (text.toList.map Char.toLower)
  isEmail text := text.toList.count '@' = 1 && !text.toList.any isSpace &&
    text.toList.head? ≠ some '@' && text.toList.getLast? ≠ some '@'
  sign _ _ email := "token of " ++ email

/-- A request arrives as thread `t`, and the next `n` commands of this thread succeed. -/
def arrive (t n : ℕ) (req : AuthRequest) : List AuthEvent :=
  .spawn req :: List.replicate n (.run t 0)

/-- The first user registers; the code is 100000. -/
def registration : List AuthEvent :=
  arrive 0 8 (.register "user@example.com" "StrongPassword123!")

end FxExchange
