import ContractBench.Address
/-!
# Transactions

A transaction is a common head and one of six kinds. An application call names the accounts it
gives the program access to; the sender is always the first of them.
-/

namespace ContractBench

def minTransactionFee : UInt64 := 1000

/-- Rounds a transaction stays valid for unless it says otherwise. -/
def defaultValidity : UInt64 := 1000

/-! ## Types and actions -/

inductive TransactionType where
  | payment
  | keyRegistration
  | assetConfig
  | assetTransfer
  | assetFreeze
  | applicationCall
deriving DecidableEq, Inhabited

namespace TransactionType

def all : List TransactionType :=
  [.payment, .keyRegistration, .assetConfig, .assetTransfer, .assetFreeze, .applicationCall]

/-- The number programs compare a type with. -/
def code : TransactionType → UInt64
  | .payment => 1
  | .keyRegistration => 2
  | .assetConfig => 3
  | .assetTransfer => 4
  | .assetFreeze => 5
  | .applicationCall => 6

def name : TransactionType → String
  | .payment => "pay"
  | .keyRegistration => "keyreg"
  | .assetConfig => "acfg"
  | .assetTransfer => "axfer"
  | .assetFreeze => "afrz"
  | .applicationCall => "appl"

def ofName? (name : String) : Option TransactionType := all.find? (·.name == name)

theorem ofName?_name (t : TransactionType) : ofName? t.name = some t := by
  cases t <;> rfl

end TransactionType

/-- What an application call asks for besides running the program. -/
inductive OnComplete where
  | noOp
  | optIn
  | closeOut
  | clearState
  | updateApplication
  | deleteApplication
deriving DecidableEq, Inhabited

namespace OnComplete

def all : List OnComplete :=
  [.noOp, .optIn, .closeOut, .clearState, .updateApplication, .deleteApplication]

def code : OnComplete → UInt64
  | .noOp => 0
  | .optIn => 1
  | .closeOut => 2
  | .clearState => 3
  | .updateApplication => 4
  | .deleteApplication => 5

def name : OnComplete → String
  | .noOp => "NoOp"
  | .optIn => "OptIn"
  | .closeOut => "CloseOut"
  | .clearState => "ClearState"
  | .updateApplication => "UpdateApplication"
  | .deleteApplication => "DeleteApplication"

def ofName? (name : String) : Option OnComplete := all.find? (·.name == name)

theorem ofName?_name (c : OnComplete) : ofName? c.name = some c := by
  cases c <;> rfl

end OnComplete

/-! ## Transactions -/

/-- What a transaction does, with the data that belongs to it. -/
inductive TransactionKind where
  | payment (receiver : Address) (amount : UInt64) (closeRemainderTo : Option Address)
  | keyRegistration
  | assetConfig (assetId : UInt64)
  | assetTransfer (assetId : UInt64) (receiver : Address) (amount : UInt64)
  | assetFreeze (assetId : UInt64) (target : Address) (frozen : Bool)
  | applicationCall (appId : UInt64) (onCompletion : OnComplete) (args : List String)
      (accounts : List Address)
deriving DecidableEq

def TransactionKind.type : TransactionKind → TransactionType
  | .payment .. => .payment
  | .keyRegistration => .keyRegistration
  | .assetConfig .. => .assetConfig
  | .assetTransfer .. => .assetTransfer
  | .assetFreeze .. => .assetFreeze
  | .applicationCall .. => .applicationCall

structure Transaction where
  sender : Address
  fee : UInt64 := minTransactionFee
  firstValid : UInt64 := 0
  lastValid : UInt64 := defaultValidity
  note : String := ""
  kind : TransactionKind
deriving DecidableEq

namespace Transaction

/-! ### Making transactions -/

def payment (sender receiver : Address) (amount : UInt64) : Transaction where
  sender := sender
  kind := .payment receiver amount none

def appCall (sender : Address) (appId : UInt64) (onCompletion : OnComplete) : Transaction where
  sender := sender
  kind := .applicationCall appId onCompletion [] []

/-- A call of application 0, which asks for a new application. -/
def appCreate (sender : Address) : Transaction := appCall sender 0 .noOp

def keyRegistration (sender : Address) : Transaction where
  sender := sender
  kind := .keyRegistration

def assetTransfer (sender receiver : Address) (assetId amount : UInt64) : Transaction where
  sender := sender
  kind := .assetTransfer assetId receiver amount

/-- The accounts of an application call replaced; other kinds have none. -/
def withAccounts (t : Transaction) (accounts : List Address) : Transaction :=
  match t.kind with
  | .applicationCall appId action args _ =>
    { t with kind := .applicationCall appId action args accounts }
  | _ => t

/-- The arguments of an application call replaced; other kinds have none. -/
def withArgs (t : Transaction) (args : List String) : Transaction :=
  match t.kind with
  | .applicationCall appId action _ accounts =>
    { t with kind := .applicationCall appId action args accounts }
  | _ => t

/-! ### Reading transactions -/

def type (t : Transaction) : TransactionType := t.kind.type

def appId? (t : Transaction) : Option UInt64 :=
  match t.kind with
  | .applicationCall appId _ _ _ => some appId
  | _ => none

def onCompletion? (t : Transaction) : Option OnComplete :=
  match t.kind with
  | .applicationCall _ action _ _ => some action
  | _ => none

/-- The accounts a program may use: the sender, then those an application call lists. -/
def accessibleAccounts (t : Transaction) : List Address :=
  match t.kind with
  | .applicationCall _ _ _ accounts => t.sender :: accounts
  | _ => [t.sender]

/-- The account at a position among the accessible ones. -/
def accountAt? (t : Transaction) (index : UInt64) : Option Address :=
  t.accessibleAccounts[index.toNat]?

theorem mem_of_accountAt? {t : Transaction} {i : UInt64} {a : Address}
    (h : t.accountAt? i = some a) : a ∈ t.accessibleAccounts :=
  List.mem_of_getElem? h

end Transaction

end ContractBench
