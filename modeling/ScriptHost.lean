import ScriptHost.Artifact
import ScriptHost.Capability
import ScriptHost.CommandLine.Arguments
import ScriptHost.CommandLine.Commands
import ScriptHost.CommandLine.Event
import ScriptHost.CommandLine.Option
import ScriptHost.CommandLine.Outcome
import ScriptHost.CommandLine.Script
import ScriptHost.CommandLine.Usage
import ScriptHost.Compile.Chain
import ScriptHost.Compile.Diagnostic
import ScriptHost.Compile.Header
import ScriptHost.Compile.LuaBackend
import ScriptHost.Compile.Slang
import ScriptHost.Config.Environment
import ScriptHost.Config.FileConfig
import ScriptHost.Config.Loading
import ScriptHost.Config.Section
import ScriptHost.Config.Settings
import ScriptHost.Config.Source
import ScriptHost.Config.Startup
import ScriptHost.Config.Tree
import ScriptHost.Config.Validation
import ScriptHost.Decimal.Reading
import ScriptHost.Decimal.Rounded
import ScriptHost.Decimal.Shortest
import ScriptHost.Dict
import ScriptHost.Digest.Blake3
import ScriptHost.Engine.Bridge
import ScriptHost.Engine.Kind
import ScriptHost.Engine.Loader
import ScriptHost.Engine.LuaEngine
import ScriptHost.Engine.Registry
import ScriptHost.Engine.Worker
import ScriptHost.File
import ScriptHost.Host.Arena
import ScriptHost.Host.Function
import ScriptHost.Host.Modules
import ScriptHost.Host.Surface
import ScriptHost.Language
import ScriptHost.Lease
import ScriptHost.Lifecycle
import ScriptHost.Log
import ScriptHost.Lua.Bytes
import ScriptHost.Lua.Chunk
import ScriptHost.Lua.ChunkName
import ScriptHost.Lua.Execution
import ScriptHost.Lua.Format
import ScriptHost.Lua.Frame
import ScriptHost.Lua.Heap
import ScriptHost.Lua.Lexer
import ScriptHost.Lua.Library
import ScriptHost.Lua.Library.Basic
import ScriptHost.Lua.Library.Clock
import ScriptHost.Lua.Library.Collection
import ScriptHost.Lua.Library.Maths
import ScriptHost.Lua.Library.Packing
import ScriptHost.Lua.Library.Text
import ScriptHost.Lua.Library.Unicode
import ScriptHost.Lua.Machine
import ScriptHost.Lua.Naming
import ScriptHost.Lua.Number
import ScriptHost.Lua.NumericLoop
import ScriptHost.Lua.Operation
import ScriptHost.Lua.Parser
import ScriptHost.Lua.Pattern
import ScriptHost.Lua.Routine
import ScriptHost.Lua.Scope
import ScriptHost.Lua.Surroundings
import ScriptHost.Lua.Syntax
import ScriptHost.Lua.SyntaxError
import ScriptHost.Lua.Table
import ScriptHost.Lua.Token
import ScriptHost.Lua.Value
import ScriptHost.Main
import ScriptHost.ObjectId
import ScriptHost.Panicking
import ScriptHost.Region
import ScriptHost.Script
import ScriptHost.Text.Blank
import ScriptHost.Text.Digit
import ScriptHost.Text.Json
import ScriptHost.Text.Leading
import ScriptHost.Text.Lines
import ScriptHost.Text.Lossy
import ScriptHost.Text.Number
import ScriptHost.Text.Reader
import ScriptHost.Toml.Document
import ScriptHost.Toml.Node
import ScriptHost.Toml.Printer
import ScriptHost.Toml.Quoted
import ScriptHost.Toml.Scalar
import ScriptHost.Value
import ScriptHost.Proofs.Arena.Call
import ScriptHost.Proofs.Arena.Valid
import ScriptHost.Proofs.Arena.Ledger
import ScriptHost.Proofs.Arena.Tracking
import ScriptHost.Proofs.Arena.Refinement
import ScriptHost.Proofs.Arena.Revocation
import ScriptHost.Proofs.Slang.Cutting
import ScriptHost.Proofs.Slang.LongBracket
import ScriptHost.Proofs.Slang.LineComment
import ScriptHost.Proofs.Lua.Pieces
import ScriptHost.Proofs.Slang.QuotedString
import ScriptHost.Proofs.Lua.Numeral
import ScriptHost.Proofs.Slang.Lowering
import ScriptHost.Proofs.Slang.Scanning
import ScriptHost.Proofs.Slang.Tokens
import ScriptHost.Proofs.Slang.TokenStream
import ScriptHost.Proofs.Compile.Header
import ScriptHost.Proofs.Compile.Links
import ScriptHost.Proofs.Compile.Passages
import ScriptHost.Proofs.Slang.Passages
import ScriptHost.Proofs.Compile.LineNumbers
import ScriptHost.Proofs.Lua.Budget
import ScriptHost.Proofs.Worker.Turns
import ScriptHost.Proofs.Worker.Exchange
import ScriptHost.Proofs.Worker.Delivery
import ScriptHost.Proofs.Arena.Aging
import ScriptHost.Proofs.Arena.Lasting
import ScriptHost.Proofs.Arena.Requests
import ScriptHost.Proofs.Arena.Together
import ScriptHost.Proofs.Arena.Sweeping
import ScriptHost.Proofs.Engine.Operations
import ScriptHost.Proofs.Engine.Ownership
import ScriptHost.Proofs.Worker.Alone
import ScriptHost.Proofs.Engine.Standing
import ScriptHost.Proofs.Engine.Course
import ScriptHost.Proofs.Engine.Views
import ScriptHost.Proofs.Engine.Isolation
import ScriptHost.Proofs.Engine.Transcript
import ScriptHost.Proofs.Engine.Watched
import ScriptHost.Proofs.Engine.Containment
import ScriptHost.Proofs.Host.FunctionTable
import ScriptHost.Proofs.Host.Disclosure
import ScriptHost.Proofs.Host.Invocation
import ScriptHost.Proofs.Arena.Upkeep
import ScriptHost.Proofs.Engine.Activity
import ScriptHost.Proofs.Engine.Replacement
import ScriptHost.Proofs.Engine.Lifespan
import ScriptHost.Proofs.Engine.Startup
import ScriptHost.Proofs.Engine.Threads
import ScriptHost.Proofs.Worker.Pending
import ScriptHost.Proofs.Config.Paths
import ScriptHost.Proofs.Config.Reading
import ScriptHost.Proofs.Config.Layers
import ScriptHost.Proofs.Config.Folding
import ScriptHost.Proofs.Config.Order
import ScriptHost.Proofs.Config.Precedence
import ScriptHost.Proofs.Config.Merging
import ScriptHost.Proofs.Config.Writing
import ScriptHost.Proofs.Engine.Selection
import ScriptHost.Proofs.Config.Coverage
import ScriptHost.Proofs.Lua.Ending
import ScriptHost.Proofs.Lua.Frames
import ScriptHost.Proofs.Lua.Evaluation
import ScriptHost.Proofs.Lua.Calling
import ScriptHost.Proofs.Lua.Protection
import ScriptHost.Proofs.Lua.Catching
import ScriptHost.Proofs.Worker.Aborts
import ScriptHost.Proofs.Slang.Unterminated
import ScriptHost.Proofs.Slang.Directives
import ScriptHost.Proofs.Slang.Verbatim
import ScriptHost.Proofs.Compile.Idempotence
import ScriptHost.Proofs.Lua.Lookahead
import ScriptHost.Proofs.Lua.Spelling
import ScriptHost.Proofs.Lua.Reading
import ScriptHost.Proofs.Slang.BlockComment
import ScriptHost.Proofs.Lua.Adjacent
import ScriptHost.Proofs.Slang.LuaSource
import ScriptHost.Proofs.Arena.LastCalls
import ScriptHost.Proofs.Host.Clashes
import ScriptHost.Proofs.Lua.Decoding
import ScriptHost.Proofs.Compile.Diagnostics
import ScriptHost.Proofs.Lua.Fields
import ScriptHost.Proofs.Lua.Progress
import ScriptHost.Proofs.Engine.Callers
import ScriptHost.Proofs.Engine.HostCalls
import ScriptHost.Proofs.Lease.Expiry
import ScriptHost.Proofs.Lease.Reckoning
import ScriptHost.Proofs.Arena.Guarded
import ScriptHost.Proofs.Slang.Cursor
import ScriptHost.Proofs.Slang.Scan
