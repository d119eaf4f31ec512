import WsChat.Lib.IterSet
import WsChat.Lib.Bytes
import WsChat.Lib.Json
import WsChat.Lib.Regex
import WsChat.Lib.Utf8
import WsChat.Lib.Matching
import WsChat.Lib.Window
import WsChat.Lib.Lists
import WsChat.Lib.Writes
import WsChat.Lib.Membership
import WsChat.Lib.Steps
import WsChat.Lib.JsonText
import WsChat.Lib.Redis
import WsChat.Lib.Throwing
import WsChat.State
import WsChat.Rooms
import WsChat.Clients
import WsChat.RegexParser
import WsChat.Commands
import WsChat.Packets
import WsChat.Server
import WsChat.Registry
import WsChat.Effects
import WsChat.Refinement
import WsChat.Moves
import WsChat.Handlers
import WsChat.Runs
import WsChat.Tables
import WsChat.Members
import WsChat.Rights
import WsChat.Bans
import WsChat.Resume
import WsChat.Gate
import WsChat.Persistence
import WsChat.Sessions
import WsChat.Replies
import WsChat.Credentials
import WsChat.Database
import WsChat.Admission
import WsChat.History
import WsChat.Isolation
import WsChat.Identity
import WsChat.Sanitize
import WsChat.Flood
import WsChat.CommandLine
import WsChat.Nicks
import WsChat.Moderation
import WsChat.Whispers
import WsChat.Numbers
import WsChat.Addresses
import WsChat.Records
import WsChat.Timeouts
import WsChat.MemberIds
import WsChat.Tokens
import WsChat.RegexSplit
import WsChat.Departures
import WsChat.Profiles
import WsChat.Views
import WsChat.Informed
import WsChat.Feeds
import WsChat.Lifetimes
import WsChat.Progress
import WsChat.Feats
import WsChat.Confidential
import WsChat.Upkeep
import WsChat.Presence
import WsChat.Standards
import WsChat.Limits
import WsChat.Abstraction
import WsChat.Private
import WsChat.Secrets
