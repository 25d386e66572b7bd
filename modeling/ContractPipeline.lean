import ContractPipeline.Account
import ContractPipeline.Address
import ContractPipeline.Application
import ContractPipeline.Bytes
import ContractPipeline.CommandLine.Command
import ContractPipeline.CommandLine.Grammar
import ContractPipeline.CommandLine.Help
import ContractPipeline.CommandLine.Run
import ContractPipeline.Compiler.Build
import ContractPipeline.Compiler.BuildJson
import ContractPipeline.Compiler.BuildReader
import ContractPipeline.Compiler.Cache
import ContractPipeline.Compiler.Error
import ContractPipeline.Compiler.Native
import ContractPipeline.Compiler.Version
import ContractPipeline.Configuration
import ContractPipeline.Configuration.Json
import ContractPipeline.Curve.Field
import ContractPipeline.Curve.Point
import ContractPipeline.Environment
import ContractPipeline.Extension.Override
import ContractPipeline.Extension.Registry
import ContractPipeline.Extension.ServerHook
import ContractPipeline.Extension.Task
import ContractPipeline.Hash.Hmac
import ContractPipeline.Hash.Keccak
import ContractPipeline.Hash.Sha256
import ContractPipeline.Hash.Sha512
import ContractPipeline.Job
import ContractPipeline.Journal
import ContractPipeline.Json.Numeral
import ContractPipeline.Json.Scanner
import ContractPipeline.Json.Value
import ContractPipeline.Key
import ContractPipeline.Main
import ContractPipeline.Network
import ContractPipeline.Plan
import ContractPipeline.Proofs.Account.Capacity
import ContractPipeline.Proofs.Account.Listing
import ContractPipeline.Proofs.CommandLine.Secrecy
import ContractPipeline.Proofs.Compiler.BuildForms
import ContractPipeline.Proofs.Compiler.Containment
import ContractPipeline.Proofs.Compiler.Decision
import ContractPipeline.Proofs.Compiler.Listing
import ContractPipeline.Proofs.Compiler.ListingOrder
import ContractPipeline.Proofs.Compiler.LongVersion
import ContractPipeline.Proofs.Compiler.Reading
import ContractPipeline.Proofs.Compiler.RoundTrip
import ContractPipeline.Proofs.Compiler.Selection
import ContractPipeline.Proofs.Compiler.Skipping
import ContractPipeline.Proofs.Compiler.Truncation
import ContractPipeline.Proofs.Compiler.VersionOrder
import ContractPipeline.Proofs.Compiler.VersionText
import ContractPipeline.Proofs.Configuration.Consistency
import ContractPipeline.Proofs.Configuration.Footprint
import ContractPipeline.Proofs.Configuration.Veil
import ContractPipeline.Proofs.Configuration.Views
import ContractPipeline.Proofs.Curve.Field
import ContractPipeline.Proofs.Curve.Group
import ContractPipeline.Proofs.Curve.Order
import ContractPipeline.Proofs.Curve.Primality
import ContractPipeline.Proofs.Curve.Root
import ContractPipeline.Proofs.Extension.AccountsTask
import ContractPipeline.Proofs.Extension.Bystander
import ContractPipeline.Proofs.Extension.Chain
import ContractPipeline.Proofs.Extension.Conservation
import ContractPipeline.Proofs.Extension.History
import ContractPipeline.Proofs.Extension.KeepAlive
import ContractPipeline.Proofs.Extension.Provenance
import ContractPipeline.Proofs.Extension.Registration
import ContractPipeline.Proofs.Extension.Reinstall
import ContractPipeline.Proofs.Extension.SameTrace
import ContractPipeline.Proofs.Extension.Steps
import ContractPipeline.Proofs.IntegerVariables
import ContractPipeline.Proofs.Json.Layouts
import ContractPipeline.Proofs.Json.Literals
import ContractPipeline.Proofs.Json.Numerals
import ContractPipeline.Proofs.Json.Tokens
import ContractPipeline.Proofs.Key
import ContractPipeline.Proofs.Key.Forms
import ContractPipeline.Proofs.Server.Advertising
import ContractPipeline.Proofs.Startup
import ContractPipeline.Proofs.Storage.Folder
import ContractPipeline.Proofs.Storage.Growth
import ContractPipeline.Proofs.Storage.Naming
import ContractPipeline.Proofs.Storage.Walk
import ContractPipeline.Proofs.Table
import ContractPipeline.Proofs.Text.ByteOrder
import ContractPipeline.Proofs.Text.Integers
import ContractPipeline.Proofs.Text.Words
import ContractPipeline.Proofs.Variables
import ContractPipeline.Proofs.Wallet.Accounts
import ContractPipeline.Proofs.Wallet.KeyPath
import ContractPipeline.Proofs.Wallet.LastStep
import ContractPipeline.Proofs.Wallet.Normalization
import ContractPipeline.Proofs.Wallet.Outcomes
import ContractPipeline.Server.DevServer
import ContractPipeline.Server.Request
import ContractPipeline.Server.Target
import ContractPipeline.Storage.Error
import ContractPipeline.Storage.FileTree
import ContractPipeline.Storage.Path
import ContractPipeline.Storage.Sink
import ContractPipeline.Table
import ContractPipeline.Text.Blank
import ContractPipeline.Text.Integer
import ContractPipeline.Text.Quoted
import ContractPipeline.Text.Split
import ContractPipeline.Text.Styled
import ContractPipeline.Text.Unprintable
import ContractPipeline.Text.Utf8
import ContractPipeline.Wallet.Derivation
import ContractPipeline.Wallet.Error
import ContractPipeline.Wallet.KeyPath
import ContractPipeline.Wallet.Phrase
import ContractPipeline.Wallet.WordList
