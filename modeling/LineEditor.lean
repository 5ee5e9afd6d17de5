import LineEditor.Text.Ranges
import LineEditor.Text.Width.Table
import LineEditor.Text.Escaped.Table
import LineEditor.Text.Blank
import LineEditor.Text.Width
import LineEditor.Text.Escaped
import LineEditor.Text.Utf8
import LineEditor.Text.Utf8.Buffered
import LineEditor.Text.Utf8.Slice
import LineEditor.Quoting.Basic
import LineEditor.Quoting.Insertion
import LineEditor.Memory
import LineEditor.Line.Basic
import LineEditor.Line.Redraw
import LineEditor.History
import LineEditor.Line.Builtin
import LineEditor.Line.Edit
import LineEditor.Line.Buffer
import LineEditor.Keys.Event
import LineEditor.Keys.Keymap
import LineEditor.Keys.Trie
import LineEditor.Keys.Decoder
import LineEditor.Keys.Arena
import LineEditor.Session.Error
import LineEditor.Session.Entry
import LineEditor.Session.World
import LineEditor.Session.Calls
import LineEditor.Session.Machine
import LineEditor.Shell.Evaluation
import LineEditor.Shell.CommandWord
import LineEditor.Shell.SharedPrefix
import LineEditor.Session.Scenario
import LineEditor.Dispatch.Basic
import LineEditor.Dispatch.Errand
import LineEditor.Toml.Value
import LineEditor.Toml.Number
import LineEditor.Toml.Moment
import LineEditor.Toml.Quoted
import LineEditor.Toml.Table
import LineEditor.Toml.Document
import LineEditor.Settings.Basic
import LineEditor.Settings.Place
import LineEditor.Application.Arguments
import LineEditor.Application.Client
import LineEditor.Application.Running
import LineEditor.Application.Invocation
import LineEditor.Main
import LineEditor.Proofs.Lists
import LineEditor.Proofs.Memory
import LineEditor.Proofs.Keys.Extension
import LineEditor.Proofs.Keys.LongestMatch
import LineEditor.Proofs.Keys.Arena
import LineEditor.Proofs.Keys.Tokens
import LineEditor.Proofs.Toml.Distinct
import LineEditor.Proofs.Settings.Reading
import LineEditor.Proofs.Settings.Overlay
import LineEditor.Proofs.Quoting.Literal
import LineEditor.Proofs.Quoting.Insertion
import LineEditor.Proofs.Quoting.Grammar
import LineEditor.Proofs.History
import LineEditor.Proofs.Line.Buffer
import LineEditor.Proofs.Line.Zipper
import LineEditor.Proofs.Session.Entering
import LineEditor.Proofs.Session.Reachable
import LineEditor.Proofs.Session.Ownership
import LineEditor.Proofs.Session.Capture
import LineEditor.Proofs.Session.Splicing
import LineEditor.Proofs.Session.Wakeup
import LineEditor.Proofs.Session.Calm
import LineEditor.Proofs.Session.Course
import LineEditor.Proofs.Session.Progress
import LineEditor.Proofs.Session.Timing
import LineEditor.Proofs.Session.Journal
import LineEditor.Proofs.Session.Conservation
import LineEditor.Proofs.Session.Protocol
import LineEditor.Proofs.Session.Holding
import LineEditor.Proofs.Session.WordQuoting
import LineEditor.Proofs.Terminal.Coherence
import LineEditor.Proofs.Terminal.Redraw
import LineEditor.Proofs.Terminal.Silence
import LineEditor.Proofs.Text.Encoding
import LineEditor.Proofs.Text.Streaming
import LineEditor.Proofs.Session.LifeCycle
import LineEditor.Proofs.Session.Refusals
import LineEditor.Proofs.Session.Nesting
import LineEditor.Proofs.Session.Returning
import LineEditor.Proofs.Session.RawReading
import LineEditor.Proofs.Application.Sitting
import LineEditor.Proofs.Application.Stage
import LineEditor.Proofs.Application.Messages
import LineEditor.Proofs.Application.Interleaving
import LineEditor.Proofs.Application.Transcript
import LineEditor.Proofs.Application.Endings
import LineEditor.Proofs.Application.Dialogue
import LineEditor.Proofs.Dispatch.Order
import LineEditor.Proofs.Shell.SharedPrefix
import LineEditor.Proofs.Shell.CommandWord
import LineEditor.Proofs.Shell.WordExtension
import LineEditor.Proofs.Shell.QuotedArguments
