import Upriv.CivilTime
import Upriv.Config.AppSettings.Load
import Upriv.Config.AppSettings.Save
import Upriv.Config.AppSettings.Serialize
import Upriv.Config.AppSettings.Toml
import Upriv.Config.EditPolicy
import Upriv.Config.VaultConfig.Documents
import Upriv.Config.VaultConfig.Load
import Upriv.Config.VaultConfig.SaveLoad
import Upriv.Config.VaultConfig.Types
import Upriv.Config.VaultGroups.Accepted
import Upriv.Config.VaultGroups.AllOrNothing
import Upriv.Config.VaultGroups.Cascade
import Upriv.Config.VaultGroups.CascadeCalls
import Upriv.Config.VaultGroups.CascadeSave
import Upriv.Config.VaultGroups.Flags
import Upriv.Config.VaultGroups.Frame
import Upriv.Config.VaultGroups.HideAndSave
import Upriv.Config.VaultGroups.Hiding
import Upriv.Config.VaultGroups.Load
import Upriv.Config.VaultGroups.Membership
import Upriv.Config.VaultGroups.Metadata
import Upriv.Config.VaultGroups.Mutate
import Upriv.Config.VaultGroups.Registry
import Upriv.Config.VaultGroups.Runs
import Upriv.Config.VaultGroups.Sanitize
import Upriv.Config.VaultGroups.ShownOrder
import Upriv.Config.VaultGroups.Types
import Upriv.Contents.Aead
import Upriv.Contents.Chunk
import Upriv.Contents.ChunkSize
import Upriv.Contents.CreateSucceeds
import Upriv.Contents.Editing
import Upriv.Contents.Header
import Upriv.Contents.Index
import Upriv.Contents.Integrity
import Upriv.Contents.Overwrite
import Upriv.Contents.Read
import Upriv.Contents.Representation
import Upriv.Contents.RoundTrip
import Upriv.Contents.Saved
import Upriv.Contents.Store
import Upriv.Contents.StoreFiles
import Upriv.Contents.StoreFrame
import Upriv.Contents.Tampering
import Upriv.Contents.Unlock
import Upriv.Contents.Write
import Upriv.Crates.Aead
import Upriv.Crates.Serde
import Upriv.Crates.Store
import Upriv.Crates.Toml
import Upriv.Crates.Uuid
import Upriv.Daemon.Answers
import Upriv.Daemon.Main
import Upriv.Electron.Daemon
import Upriv.Electron.LogResponse
import Upriv.Electron.Stdout
import Upriv.Error
import Upriv.FileManager.DraftLoss
import Upriv.FileManager.Follow
import Upriv.FileManager.Reducer
import Upriv.FileManager.Requests
import Upriv.FileManager.TabInvariant
import Upriv.Fs.Dirs
import Upriv.Fs.Disk
import Upriv.Fs.Frame
import Upriv.Logging.Format
import Upriv.Logging.Invariant
import Upriv.Logging.Names
import Upriv.Logging.Prune
import Upriv.Logging.RawLines
import Upriv.Logging.RawWriter
import Upriv.Logging.Reopening
import Upriv.Logging.Resume
import Upriv.Logging.Segments
import Upriv.Logging.Sequence
import Upriv.Logging.Store
import Upriv.Logging.Writer
import Upriv.Paths.Alias
import Upriv.Paths.Init
import Upriv.Paths.Join
import Upriv.Paths.MountPoint
import Upriv.Paths.VaultRoot
import Upriv.Paths.Workspace
import Upriv.Session.ClosingMark
import Upriv.Session.Completion
import Upriv.Session.ConfigSave
import Upriv.Session.CreateCleanup
import Upriv.Session.Model
import Upriv.Session.RootSwitchCheck
import Upriv.Session.SoleSession
import Upriv.Session.Steps
import Upriv.Shared.FileTree.Move
import Upriv.Shared.FileTree.Paths
import Upriv.Shared.FileTree.Session
import Upriv.Shared.FileTree.Tree
import Upriv.Shared.ListSearch
import Upriv.Shared.Logs
import Upriv.Shared.MountLeaf
import Upriv.Shared.PipelineRun
import Upriv.Shared.Vault.DisplayName
import Upriv.Shared.VaultGroups.HiddenOrder
import Upriv.Shared.VaultGroups.HiddenRuns
import Upriv.Shared.VaultGroups.Hierarchy
import Upriv.Shared.VaultGroups.Membership
import Upriv.Shared.VaultGroups.Order
import Upriv.Shared.VaultGroups.RootOrder
import Upriv.Shared.VaultGroups.SlugId
import Upriv.Shared.VaultList.MergeSnapshot
import Upriv.Shared.VaultList.PendingCreate
import Upriv.Shared.VaultList.Sort
import Upriv.Support.Backtrack
import Upriv.Support.Budget
import Upriv.Support.Bytes
import Upriv.Support.Calendar
import Upriv.Support.Chunks
import Upriv.Support.CodeUnits
import Upriv.Support.Digits
import Upriv.Support.Fallible
import Upriv.Support.FirstFree
import Upriv.Support.Framing
import Upriv.Support.JsText
import Upriv.Support.Json
import Upriv.Support.JsonText
import Upriv.Support.Keyed
import Upriv.Support.Lines
import Upriv.Support.LossyUtf8
import Upriv.Support.NamedTree
import Upriv.Support.Preserves
import Upriv.Support.Record
import Upriv.Support.Runs
import Upriv.Support.SavedMap
import Upriv.Support.Segments
import Upriv.Support.StableSort
import Upriv.Support.Succeeds
import Upriv.Support.Text
import Upriv.Support.TreeEntries
import Upriv.Support.TreeMoves
import Upriv.Support.Trimming
import Upriv.Support.Words
import Upriv.Time
import Upriv.Vault.Attempts
import Upriv.Vault.Calls
import Upriv.Vault.ContentHash
import Upriv.Vault.CreateSucceeds
import Upriv.Vault.ListOrder
import Upriv.Vault.Listing
import Upriv.Vault.OpenClose
import Upriv.Vault.Passwords
import Upriv.Vault.Throttle
import Upriv.Vault.Usable
import Upriv.Vault.World
